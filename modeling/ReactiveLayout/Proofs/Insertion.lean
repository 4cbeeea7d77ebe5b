import ReactiveLayout.Proofs.BuildOrder

/-! A table with one more name, of something that is no array. The planner lists the name among the others that are no
arrays and never looks at it again, since no visit enters it; so the plan is as before with the name put in. -/
namespace ReactiveLayout
variable {K : Type}

def Gains (n : String) (names wider : List String) : Prop :=
  ∃ front back, names = front ++ back ∧ wider = front ++ n :: back

namespace Gains
variable {n : String} {names wider : List String}

theorem mem_iff (gains : Gains n names wider) {other : String} (different : other ≠ n) :
    other ∈ wider ↔ other ∈ names := by
  obtain ⟨front, back, rfl, rfl⟩ := gains
  simp [different]

theorem append (gains : Gains n names wider) (more : List String) : Gains n (names ++ more) (wider ++ more) := by
  obtain ⟨front, back, rfl, rfl⟩ := gains
  exact ⟨front, back ++ more, List.append_assoc _ _ _, List.append_assoc _ _ _⟩

theorem cons (gains : Gains n names wider) (first : String) : Gains n (first :: names) (first :: wider) := by
  obtain ⟨front, back, rfl, rfl⟩ := gains
  exact ⟨first :: front, back, rfl, rfl⟩

end Gains

/-- A name that is new to ordered entries is placed between two of them. -/
theorem NameTable.place_of_fresh {α : Type} {n : String} {entries : List (String × α)} (value : α)
    (fresh : n ∉ entries.map (·.1)) :
    ∃ front back, entries = front ++ back ∧ place n value entries = front ++ (n, value) :: back := by
  induction entries with
  | nil => exact ⟨[], [], rfl, rfl⟩
  | cons entry rest ih =>
    obtain ⟨different, fresh⟩ := List.ne_and_not_mem_of_not_mem_cons fresh
    rw [place]
    split
    · exact ⟨[], entry :: rest, rfl, rfl⟩
    · obtain ⟨front, back, rfl, placed⟩ := ih fresh
      exact ⟨entry :: front, back, rfl, by rw [placed, List.cons_append]⟩

theorem NameTable.names_insert_gains {α : Type} {n : String} {t : NameTable α} (value : α) (fresh : n ∉ t.names) :
    Gains n t.names (t.insert n value).names := by
  obtain ⟨front, back, split, placed⟩ := place_of_fresh value fresh
  refine ⟨front.map (·.1), back.map (·.1), ?_, ?_⟩
  · rw [names, split, List.map_append]
  · have names : (t.insert n value).names = (place n value t.entries).map (·.1) := rfl
    rw [names, placed, List.map_append, List.map_cons]

/-- What a quantity can be declared as. -/
inductive Term.IsQuantity [Scalar K] : Term K → Prop where
  | number {value : K} (finite : Scalar.isFinite value = true) : IsQuantity (.number value)
  | descriptor {value : K} (finite : Scalar.isFinite value = true) : IsQuantity (.descriptor value)
  | producer (source : Producer K) : IsQuantity (.producer source)

namespace Plan
variable {terms wider : NameTable (Term K)} {n : String}

theorem arrayOf?_insert {term : Term K} (atom : ∀ elements, term ≠ .array elements) (fresh : n ∉ terms.names)
    (name : String) : arrayOf? (terms.insert n term) name = arrayOf? terms name := by
  by_cases here : name = n
  · subst here
    have absent : terms.get? name = none := (NameTable.get?_eq_none_iff _ _).mpr fresh
    have none : arrayOf? (terms.insert name term) name = .none := by
      refine Option.eq_none_iff_forall_ne_some.mpr fun elements array => ?_
      rw [arrayOf?_eq_some_iff, NameTable.get?_insert_self] at array
      exact atom elements (Option.some.inj array)
    rw [none, arrayOf?, absent]
  · rw [arrayOf?, arrayOf?, NameTable.get?_insert_ne _ _ here]

/-- What each step of a run does to the names placed so far, with one more among them, the run does. -/
theorem foldlM_gains {ε : Type} {step other : List String → String → Except ε (List String)}
    (each : ∀ placed more name final, step placed name = .ok final → Gains n placed more →
      ∃ last, other more name = .ok last ∧ Gains n final last)
    (names : List String) {placed more final : List String} (run : names.foldlM step placed = .ok final)
    (gains : Gains n placed more) : ∃ last, names.foldlM other more = .ok last ∧ Gains n final last := by
  induction names generalizing placed more with
  | nil =>
    cases run
    exact ⟨more, rfl, gains⟩
  | cons name rest ih =>
    obtain ⟨middle, stepped, later⟩ := foldlM_cons_ok run
    obtain ⟨between, first, gains⟩ := each placed more name middle stepped gains
    rw [List.foldlM_cons, first]
    exact ih later gains

theorem foldlM_skip {ε : Type} {step : List String → String → Except ε (List String)}
    (skipped : ∀ placed, step placed n = .ok placed) (front back placed : List String) :
    (front ++ n :: back).foldlM step placed = (front ++ back).foldlM step placed := by
  rw [List.foldlM_append, List.foldlM_append]
  congr 1
  funext middle
  rw [List.foldlM_cons, skipped]
  rfl

/-- A visit goes the same way with one more name placed that is no array. The induction is on the arrays that are not
being visited. -/
theorem visit_gains (same : ∀ name, arrayOf? wider name = arrayOf? terms name) (atom : arrayOf? terms n = none)
    (visiting placed more : List String) (name : String) (final : List String)
    (visited : visit terms visiting placed name = .ok final) (gains : Gains n placed more) :
    ∃ last, visit wider visiting more name = .ok last ∧ Gains n final last := by
  induction size : (unvisited terms visiting).length using Nat.strong_induction_on
    generalizing visiting placed more name final with
  | _ size ih =>
    rw [visit_eq] at visited
    rw [visit_eq, same]
    cases array : arrayOf? terms name with
    | none =>
      rw [array] at visited
      cases visited
      exact ⟨more, rfl, gains⟩
    | some elements =>
      have different : name ≠ n := by
        rintro rfl
        rw [atom] at array
        cases array
      rw [array] at visited
      simp only [gains.mem_iff different] at visited ⊢
      by_cases known : name ∈ placed
      · rw [if_pos known] at visited ⊢
        cases visited
        exact ⟨more, rfl, gains⟩
      · rw [if_neg known] at visited ⊢
        by_cases ring : name ∈ visiting
        · rw [if_pos ring] at visited
          cases visited
        · rw [if_neg ring] at visited ⊢
          by_cases own : name ∈ Term.referencesOfAll elements
          · rw [if_pos own] at visited
            cases visited
          · rw [if_neg own] at visited ⊢
            have fewer := size ▸ unvisited_length_lt array ring
            split at visited
            · cases visited
            · rename_i inner run
              cases visited
              obtain ⟨last, again, gains⟩ := foldlM_gains
                (fun placed more next final visited gains =>
                  ih _ fewer (visiting ++ [name]) placed more next final visited gains rfl) _ run gains
              rw [again]
              exact ⟨last ++ [name], rfl, gains.append [name]⟩

variable [Scalar K]

theorem atoms_gains {term : Term K} (quantity : term.IsQuantity) {front back : List (String × Term K)}
    {names : List String} (listed : atoms (front ++ back) = .ok names) :
    ∃ more, atoms (front ++ (n, term) :: back) = .ok more ∧ Gains n names more := by
  induction front generalizing names with
  | nil =>
    rw [List.nil_append] at listed ⊢
    refine ⟨n :: names, ?_, [], names, rfl, rfl⟩
    cases quantity with
    | number finite | descriptor finite => simp only [atoms, Term.classify, Term.kind?, finite, if_true, listed]
    | producer source => simp only [atoms, Term.classify, Term.kind?, listed]
  | cons entry rest ih =>
    obtain ⟨name, other⟩ := entry
    rw [List.cons_append, atoms] at listed ⊢
    split at listed
    · cases listed
    · exact ih listed
    · cases listed
    · cases listed
    all_goals
      split at listed
      · cases listed
      · rename_i names run
        cases listed
        obtain ⟨more, again, gains⟩ := ih run
        rw [again]
        exact ⟨name :: more, rfl, gains.cons name⟩

/-- The plan of a table with one more name that is no array. -/
theorem order_gains {term : Term K} (quantity : term.IsQuantity) (fresh : n ∉ terms.names) {plan : Plan}
    (ordered : order terms = .ok plan) :
    ∃ more, order (terms.insert n term) = .ok ⟨more⟩ ∧ Gains n plan.names more := by
  have notArray : ∀ elements, term ≠ .array elements := by
    rintro elements rfl
    cases quantity
  have same := arrayOf?_insert notArray fresh
  have atom : arrayOf? terms n = none := by
    rw [arrayOf?, (NameTable.get?_eq_none_iff _ _).mpr fresh]
  obtain ⟨front, back, split, placed⟩ := NameTable.place_of_fresh term fresh
  have entries : (terms.insert n term).entries = front ++ (n, term) :: back := placed
  unfold order at ordered ⊢
  split at ordered
  · cases ordered
  · rename_i names listed
    split at ordered
    · cases ordered
    · rename_i final run
      cases ordered
      rw [split] at listed
      obtain ⟨more, again, gains⟩ := atoms_gains quantity listed
      obtain ⟨last, visits, gains⟩ := foldlM_gains (visit_gains same atom []) _ run gains
      -- The visit of the new name itself changes nothing.
      have skipped (placed : List String) : visit (terms.insert n term) [] placed n = .ok placed := by
        rw [visit_eq, same, atom]
      have others : (terms.insert n term).names.foldlM (visit (terms.insert n term) []) more = .ok last := by
        obtain ⟨before, behind, names, wider⟩ := NameTable.names_insert_gains term fresh
        rw [wider, foldlM_skip skipped, ← names]
        exact visits
      rw [entries, again]
      dsimp only
      rw [others]
      exact ⟨last, rfl, gains⟩

end Plan
end ReactiveLayout
