import Mathlib
import ReactiveLayout.Proofs.NameTable
import ReactiveLayout.Proofs.References

/-! A plan can be built from front to back. The planner goes through the references depth first; each visit keeps what
is placed, adds only arrays that are not being visited, and leaves an array behind everything that it refers to. The
run from all names then orders the whole table. -/
namespace ReactiveLayout
variable {K : Type}

namespace Plan
open Term

theorem arrayOf?_eq_some_iff {terms : NameTable (Term K)} {name : String} {elements : List (Term K)} :
    arrayOf? terms name = some elements ↔ terms.get? name = some (.array elements) := by
  unfold arrayOf?
  split
  · rename_i found
    simp [found]
  · rename_i other
    constructor
    · intro impossible
      cases impossible
    · intro found
      exact absurd found (other elements)

theorem isNone_arrayOf? {terms : NameTable (Term K)} {name : String} {term : Term K}
    (bound : terms.get? name = some term) (notArray : ∀ elements, term ≠ .array elements) :
    (arrayOf? terms name).isNone = true := by
  rw [Option.isNone_iff_eq_none, Option.eq_none_iff_forall_ne_some]
  intro elements array
  rw [arrayOf?_eq_some_iff, bound] at array
  exact notArray elements (Option.some.inj array)

theorem mem_arrayNames_iff {terms : NameTable (Term K)} {name : String} :
    name ∈ arrayNames terms ↔ ∃ elements, arrayOf? terms name = some elements := by
  constructor
  · intro member
    exact Option.isSome_iff_exists.mp (List.mem_filter.mp member).2
  · rintro ⟨elements, array⟩
    exact mem_arrayNames_of_arrayOf? array

theorem mem_names_of_mem_arrayNames {terms : NameTable (Term K)} {name : String} (array : name ∈ arrayNames terms) :
    name ∈ terms.names :=
  (List.mem_filter.mp array).1

theorem visit_eq (terms : NameTable (Term K)) (visiting placed : List String) (name : String) :
    visit terms visiting placed name =
      match arrayOf? terms name with
      | none => .ok placed
      | some elements =>
        if name ∈ placed then .ok placed
        else if name ∈ visiting then .error (.cyclicReference (visiting.dropWhile (· != name) ++ [name]))
        else if name ∈ referencesOfAll elements then .error (.selfReference name)
        else
          match (gather [] (referencesOfAll elements)).foldlM (visit terms (visiting ++ [name])) placed with
          | .error e => .error e
          | .ok inner => .ok (inner ++ [name]) := by
  rw [visit]
  cases array : arrayOf? terms name with
  | none => rfl
  | some elements =>
    dsimp only
    rw [mentionsOfAll_eq]
    by_cases own : name ∈ referencesOfAll elements
    · simp only [own, if_true]
      rfl
    · simp only [own, if_false]
      rfl

/-- All that a successful visit can be: nothing is left to do, or the array is entered for the first time and placed
behind the visits of its references. -/
theorem visit_ok {terms : NameTable (Term K)} {visiting placed final : List String} {name : String}
    (visited : visit terms visiting placed name = .ok final) :
    (final = placed ∧ (name ∈ arrayNames terms → name ∈ placed)) ∨
      ∃ elements inner, arrayOf? terms name = some elements ∧ name ∉ placed ∧ name ∉ visiting ∧
        (gather [] (referencesOfAll elements)).foldlM (visit terms (visiting ++ [name])) placed = .ok inner ∧
        final = inner ++ [name] := by
  rw [visit_eq] at visited
  split at visited
  · rename_i atom
    cases visited
    refine .inl ⟨rfl, fun array => ?_⟩
    obtain ⟨elements, found⟩ := mem_arrayNames_iff.mp array
    rw [atom] at found
    cases found
  · rename_i elements array
    split at visited
    · rename_i known
      cases visited
      exact .inl ⟨rfl, fun _ => known⟩
    · rename_i fresh
      split at visited
      · cases visited
      · rename_i noRing
        split at visited
        · cases visited
        · split at visited
          · cases visited
          · rename_i inner run
            cases visited
            exact .inr ⟨elements, inner, array, fresh, noRing, run, rfl⟩

/-- Names that can be built as they stand: none twice, an array behind all names of the table that it refers to, and
everything that is no array there already. -/
structure Ready (terms : NameTable (Term K)) (placed : List String) : Prop where
  unique : placed.Nodup
  follows : ∀ front name back elements, placed = front ++ name :: back → arrayOf? terms name = some elements →
    ∀ other ∈ referencesOfAll elements, other ∈ terms.names → other ∈ front
  atoms : ∀ name ∈ terms.names, name ∉ arrayNames terms → name ∈ placed

theorem Ready.place {terms : NameTable (Term K)} {placed : List String} {name : String} (ready : Ready terms placed)
    (fresh : name ∉ placed)
    (referred : ∀ elements, arrayOf? terms name = some elements →
      ∀ other ∈ referencesOfAll elements, other ∈ terms.names → other ∈ placed) :
    Ready terms (placed ++ [name]) where
  unique := by
    refine List.nodup_append.mpr ⟨ready.unique, List.nodup_singleton name, ?_⟩
    rintro a known b same rfl
    exact fresh (List.mem_singleton.mp same ▸ known)
  follows := by
    intro front n back elements split array other refers key
    -- The name looked at is the new one or stands among the old ones.
    rcases List.eq_nil_or_concat back with rfl | ⟨middle, last, rfl⟩
    · obtain ⟨rfl, same⟩ := List.append_inj' split rfl
      obtain rfl : name = n := by simpa using same
      exact referred elements array other refers key
    · rw [List.concat_eq_append, ← List.cons_append, ← List.append_assoc] at split
      obtain ⟨old, _⟩ := List.append_inj' split rfl
      exact ready.follows front n middle elements old array other refers key
  atoms := fun n key atom => List.mem_append_left _ (ready.atoms n key atom)

/-- What the visits of some names do to the names placed before, with the chain `visiting` that led to them. -/
structure Extends (terms : NameTable (Term K)) (visiting names placed final : List String) : Prop where
  kept : placed <+: final
  added : ∀ name ∈ final, name ∈ placed ∨ name ∈ arrayNames terms ∧ name ∉ visiting
  reached : ∀ name ∈ names, name ∈ arrayNames terms → name ∈ final
  ready : Ready terms final

theorem Extends.nil {terms : NameTable (Term K)} {visiting placed : List String} (ready : Ready terms placed) :
    Extends terms visiting [] placed placed :=
  ⟨List.prefix_rfl, fun _ member => .inl member, fun _ member => (List.not_mem_nil member).elim, ready⟩

theorem Extends.trans {terms : NameTable (Term K)} {visiting first second placed middle final : List String}
    (front : Extends terms visiting first placed middle) (back : Extends terms visiting second middle final) :
    Extends terms visiting (first ++ second) placed final where
  kept := front.kept.trans back.kept
  added name member := (back.added name member).elim (front.added name) .inr
  reached name member array := by
    rcases List.mem_append.mp member with early | late
    · exact back.kept.subset (front.reached name early array)
    · exact back.reached name late array
  ready := back.ready

theorem visitAll_extends {terms : NameTable (Term K)} {visiting : List String}
    (each : ∀ placed name final, visit terms visiting placed name = .ok final → Ready terms placed →
      Extends terms visiting [name] placed final)
    (names : List String) {placed final : List String} (run : names.foldlM (visit terms visiting) placed = .ok final)
    (ready : Ready terms placed) : Extends terms visiting names placed final := by
  induction names generalizing placed with
  | nil =>
    cases run
    exact .nil ready
  | cons name rest ih =>
    obtain ⟨middle, visited, later⟩ := foldlM_cons_ok run
    have first := each placed name middle visited ready
    exact first.trans (ih later first.ready)

/-- The induction is on the arrays that are not being visited: an array is entered only with fewer of them. -/
theorem visit_extends (terms : NameTable (Term K)) (visiting placed : List String) (name : String)
    (final : List String) (visited : visit terms visiting placed name = .ok final) (ready : Ready terms placed) :
    Extends terms visiting [name] placed final := by
  induction size : (unvisited terms visiting).length using Nat.strong_induction_on
    generalizing visiting placed name final with
  | _ size ih =>
    rcases visit_ok visited with ⟨rfl, known⟩ | ⟨elements, inner, array, fresh, noRing, run, rfl⟩
    · refine ⟨List.prefix_rfl, fun _ member => .inl member, fun n member isArray => ?_, ready⟩
      obtain rfl := List.mem_singleton.mp member
      exact known isArray
    · have fewer := size ▸ unvisited_length_lt array noRing
      have inside := visitAll_extends
        (fun placed next final visited ready => ih _ fewer (visiting ++ [name]) placed next final visited ready rfl)
        _ run ready
      have isArray : name ∈ arrayNames terms := mem_arrayNames_iff.mpr ⟨elements, array⟩
      -- What the inner visits add is not being visited, and the name itself is.
      have freshInside : name ∉ inner := by
        intro member
        rcases inside.added name member with old | ⟨_, free⟩
        · exact fresh old
        · exact free (by simp)
      have referred : ∀ other ∈ referencesOfAll elements, other ∈ terms.names → other ∈ inner := by
        intro other refers key
        by_cases isArray : other ∈ arrayNames terms
        · exact inside.reached other ((mem_gather _ _ _).mpr (.inr refers)) isArray
        · exact inside.kept.subset (ready.atoms other key isArray)
      refine ⟨inside.kept.trans (List.prefix_append _ _), ?_, ?_, ?_⟩
      · intro n member
        rcases List.mem_append.mp member with member | same
        · rcases inside.added n member with old | ⟨array, free⟩
          · exact .inl old
          · exact .inr ⟨array, fun chain => free (List.mem_append_left _ chain)⟩
        · obtain rfl := List.mem_singleton.mp same
          exact .inr ⟨isArray, noRing⟩
      · intro n member _
        exact List.mem_append_right _ member
      · refine inside.ready.place freshInside fun others found => ?_
        obtain rfl : elements = others := Option.some.inj (array.symm.trans found)
        exact referred

variable [Scalar K]

theorem atoms_ok {terms : NameTable (Term K)} {entries : List (String × Term K)} {names : List String}
    (bound : ∀ entry ∈ entries, terms.get? entry.1 = some entry.2) (listed : atoms entries = .ok names) :
    names = (entries.map (·.1)).filter fun name => (arrayOf? terms name).isNone := by
  induction entries generalizing names with
  | nil =>
    cases listed
    rfl
  | cons entry rest ih =>
    obtain ⟨name, term⟩ := entry
    have found : terms.get? name = some term := bound (name, term) List.mem_cons_self
    have rest_ok {others : List String} (listed : atoms rest = .ok others) :=
      ih (fun entry member => bound entry (List.mem_cons_of_mem _ member)) listed
    have listed_atom {others : List String} (atom : ∀ elements, term ≠ .array elements)
        (listed : atoms rest = .ok others) :
        name :: others = ((name :: rest.map (·.1)).filter fun name => (arrayOf? terms name).isNone) := by
      rw [List.filter_cons_of_pos (by simp [Option.isNone_iff_eq_none.mp (isNone_arrayOf? found atom)]), ← rest_ok listed]
    have atom_of {kind : Term.Kind K} (classified : term.classify = .ok kind) (atom : ∀ elements, kind ≠ .array elements) :
        ∀ elements, term ≠ .array elements := by
      rintro elements rfl
      rw [Term.classify_eq_array_iff.mpr rfl] at classified
      exact atom elements (Except.ok.inj classified).symm
    simp only [atoms] at listed
    split at listed
    · cases listed
    · rename_i elements classified
      have array : arrayOf? terms name = some elements := by
        rw [arrayOf?_eq_some_iff, found, Term.classify_eq_array_iff.mp classified]
      rw [List.map_cons, List.filter_cons_of_neg (by simp [array])]
      exact rest_ok listed
    · cases listed
    · cases listed
    all_goals
      rename_i classified
      split at listed
      · cases listed
      · rename_i others run
        cases listed
        exact listed_atom (atom_of classified (by simp)) run

/-- The run behind a plan: from the names that are no arrays, in order, through the visits of all names. -/
theorem order_extends {terms : NameTable (Term K)} {plan : Plan} (ordered : order terms = .ok plan) :
    Extends terms [] terms.names (terms.names.filter fun name => (arrayOf? terms name).isNone) plan.names := by
  unfold order at ordered
  split at ordered
  · cases ordered
  · rename_i names listed
    split at ordered
    · cases ordered
    · rename_i final run
      cases ordered
      obtain rfl := atoms_ok (fun entry member => NameTable.get?_of_mem member) listed
      refine visitAll_extends (visit_extends terms []) _ run ⟨terms.names_nodup.filter _, ?_, ?_⟩
      · intro front name back elements split array
        have atom : name ∈ terms.names.filter fun name => (arrayOf? terms name).isNone := by
          have member : name ∈ front ++ name :: back := by simp
          exact split ▸ member
        have absent := (List.mem_filter.mp atom).2
        rw [array] at absent
        cases absent
      · intro name key atom
        refine List.mem_filter.mpr ⟨key, Option.isNone_iff_eq_none.mpr ?_⟩
        refine Option.eq_none_iff_forall_ne_some.mpr fun elements array => ?_
        exact atom (mem_arrayNames_iff.mpr ⟨elements, array⟩)

theorem order_nodup {terms : NameTable (Term K)} {plan : Plan} (ordered : order terms = .ok plan) :
    plan.names.Nodup :=
  (order_extends ordered).ready.unique

theorem mem_order_iff {terms : NameTable (Term K)} {plan : Plan} (ordered : order terms = .ok plan) (name : String) :
    name ∈ plan.names ↔ name ∈ terms.names := by
  have run := order_extends ordered
  constructor
  · intro member
    rcases run.added name member with atom | ⟨array, _⟩
    · exact (List.mem_filter.mp atom).1
    · exact mem_names_of_mem_arrayNames array
  · intro key
    by_cases array : name ∈ arrayNames terms
    · exact run.reached name key array
    · exact run.ready.atoms name key array

theorem atoms_prefix_order {terms : NameTable (Term K)} {plan : Plan} (ordered : order terms = .ok plan) :
    (terms.names.filter fun name => (arrayOf? terms name).isNone) <+: plan.names :=
  (order_extends ordered).kept

theorem filter_order {terms : NameTable (Term K)} {plan : Plan} (ordered : order terms = .ok plan) {p : String → Bool}
    (atom : ∀ name ∈ terms.names, p name = true → (arrayOf? terms name).isNone = true) :
    plan.names.filter p = terms.names.filter p := by
  obtain ⟨back, split⟩ := atoms_prefix_order ordered
  have noneLater : back.filter p = [] := by
    refine List.filter_eq_nil_iff.mpr fun name member picked => ?_
    have planned : name ∈ plan.names := split ▸ List.mem_append_right _ member
    have key := (mem_order_iff ordered name).mp planned
    have unique := order_nodup ordered
    rw [← split] at unique
    exact (List.nodup_append.mp unique).2.2 name (List.mem_filter.mpr ⟨key, atom name key picked⟩) name member rfl
  rw [← split, List.filter_append, noneLater, List.append_nil, List.filter_filter]
  refine List.filter_congr fun name key => ?_
  by_cases picked : p name = true
  · rw [picked, atom name key picked, Bool.and_self]
  · rw [Bool.eq_false_iff.mpr picked, Bool.false_and]

/-- Wherever a plan is cut in front of an array, its references are on the near side. -/
theorem mem_front_of_references {terms : NameTable (Term K)} {plan : Plan} (ordered : order terms = .ok plan)
    {front back : List String} {name other : String} {elements : List (Term K)}
    (split : plan.names = front ++ name :: back) (array : terms.get? name = some (.array elements))
    (refers : other ∈ referencesOfAll elements) (key : other ∈ terms.names) : other ∈ front :=
  (order_extends ordered).ready.follows front name back elements split (arrayOf?_eq_some_iff.mpr array) other refers key

theorem idxOf_lt_of_references {terms : NameTable (Term K)} {plan : Plan} (ordered : order terms = .ok plan)
    {name other : String} {elements : List (Term K)} (array : terms.get? name = some (.array elements))
    (refers : other ∈ referencesOfAll elements) (key : other ∈ terms.names) :
    plan.names.idxOf other < plan.names.idxOf name := by
  have member : name ∈ plan.names := (mem_order_iff ordered name).mpr (NameTable.mem_names_of_get? array)
  obtain ⟨front, back, split⟩ := List.append_of_mem member
  have early := mem_front_of_references ordered split array refers key
  have late : name ∉ front := by
    intro twice
    have unique := order_nodup ordered
    rw [split] at unique
    exact (List.nodup_append.mp unique).2.2 name twice name List.mem_cons_self rfl
  rw [split, List.idxOf_append_of_mem early, List.idxOf_append_of_notMem late, List.idxOf_cons_self, Nat.add_zero]
  exact List.idxOf_lt_length_of_mem early

/-- An order in which the names of a table can be built. -/
structure IsBuildOrder (terms : NameTable (Term K)) (plan : Plan) : Prop where
  unique : plan.names.Nodup
  complete : ∀ name, name ∈ plan.names ↔ name ∈ terms.names
  /-- The names that are no arrays come first, in their own order. -/
  atomsFirst : (terms.names.filter fun name => (arrayOf? terms name).isNone) <+: plan.names
  /-- Every name of the table that an array refers to, at any depth, stands strictly in front of it. -/
  follows : ∀ name elements, terms.get? name = some (.array elements) →
    ∀ other ∈ referencesOfAll elements, other ∈ terms.names → plan.names.idxOf other < plan.names.idxOf name

/-- Every plan that the planner accepts is a build order, whatever the graph of references. -/
theorem order_isBuildOrder {terms : NameTable (Term K)} {plan : Plan} (ordered : order terms = .ok plan) :
    IsBuildOrder terms plan where
  unique := order_nodup ordered
  complete := mem_order_iff ordered
  atomsFirst := atoms_prefix_order ordered
  follows _ _ array _ refers key := idxOf_lt_of_references ordered array refers key

/-- Four formulas over one number: `area` reads the other two through nested arrays, and `scale` is no name of the
table. -/
def diamond : NameTable (Term Rat) := .ofList [
  ("area", .array [.reference "width", .token (.operator .multiply),
    .array [.reference "depth", .token (.operator .add), .array [.reference "scale"]]]),
  ("depth", .array [.array [.reference "side"], .token (.operator .add), .number 1]),
  ("width", .array [.reference "side", .token (.operator .subtract), .reference "depth"]),
  ("side", .number 5)]

theorem diamond_isBuildOrder :
    order diamond = .ok ⟨["side", "depth", "width", "area"]⟩ ∧
      IsBuildOrder diamond ⟨["side", "depth", "width", "area"]⟩ := by
  have ordered : order diamond = .ok ⟨["side", "depth", "width", "area"]⟩ := by cbv
  exact ⟨ordered, order_isBuildOrder ordered⟩

end Plan
end ReactiveLayout
