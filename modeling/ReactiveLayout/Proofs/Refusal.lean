import Mathlib
import ReactiveLayout.Proofs.BuildOrder

/-! Which tables the planner refuses, and why. The names being visited are a trail: each array mentions the next and
none mentions itself, so to meet one of them again closes a ring of at least two. Every error therefore points at a
fault of the table, and a table without a fault is ordered. -/
namespace ReactiveLayout
variable {K : Type}

/-- What can be built as it stands: a finite number or descriptor, a producer, or a built value. -/
def Term.IsAtom [Scalar K] : Term K → Prop
  | .number value | .descriptor value => Scalar.isFinite value = true
  | .producer _ | .built _ => True
  | .reference _ | .token _ | .array _ => False

namespace Plan
open Term

def IsArray (terms : NameTable (Term K)) (name : String) : Prop := ∃ elements, terms.get? name = some (.array elements)

/-- The array of the first name refers to the second, at some depth. -/
def Mentions (terms : NameTable (Term K)) (name other : String) : Prop :=
  ∃ elements, terms.get? name = some (.array elements) ∧ other ∈ referencesOfAll elements

def Links (terms : NameTable (Term K)) (name other : String) : Prop := Mentions terms name other ∧ IsArray terms other

/-- A ring of at least two arrays, each of which mentions the next; the last name is the first again. -/
structure IsRing (terms : NameTable (Term K)) (chain : List String) : Prop where
  closed : chain.head? = chain.getLast?
  several : 2 ≤ chain.dropLast.length
  distinct : chain.dropLast.Nodup
  arrays : ∀ name ∈ chain.dropLast, IsArray terms name
  linked : chain.IsChain (Mentions terms)

/-- A table without a fault. -/
structure Orderable [Scalar K] (terms : NameTable (Term K)) : Prop where
  atoms : ∀ name term, terms.get? name = some term → (∀ elements, term ≠ .array elements) → term.IsAtom
  noSelf : ∀ name, ¬ Mentions terms name name
  noRing : ∀ name, ¬ Relation.TransGen (Links terms) name name

/-- The fault of a table that an error tells of. No other error is one of the planner. -/
def Blames [Scalar K] (terms : NameTable (Term K)) : CompileError K → Prop
  | .selfReference name => Mentions terms name name
  | .cyclicReference chain => IsRing terms chain
  | .atomicReference name other => terms.get? name = some (.reference other)
  | .unresolvableTerm (.tokenDefinition name word) => terms.get? name = some (.token word)
  | .unresolvableTerm (.notFinite term) =>
    ∃ name value, terms.get? name = some term ∧ (term = .number value ∨ term = .descriptor value) ∧
      Scalar.isFinite value = false
  | _ => False

/-- All that a failing visit can be: the array is met again while it is visited, it mentions itself, or the visit of one
of its references fails. -/
theorem visit_error {terms : NameTable (Term K)} {visiting placed : List String} {name : String} {e : CompileError K}
    (failed : visit terms visiting placed name = .error e) :
    ∃ elements, arrayOf? terms name = some elements ∧
      ((name ∈ visiting ∧ e = .cyclicReference (visiting.dropWhile (· != name) ++ [name])) ∨
        (name ∉ visiting ∧ name ∈ referencesOfAll elements ∧ e = .selfReference name) ∨
        (name ∉ visiting ∧ name ∉ referencesOfAll elements ∧
          (gather [] (referencesOfAll elements)).foldlM (visit terms (visiting ++ [name])) placed = .error e)) := by
  rw [visit_eq] at failed
  split at failed
  · cases failed
  · rename_i elements array
    refine ⟨elements, array, ?_⟩
    split at failed
    · cases failed
    · split at failed
      · rename_i ring
        cases failed
        exact .inl ⟨ring, rfl⟩
      · rename_i noRing
        split at failed
        · rename_i own
          cases failed
          exact .inr (.inl ⟨noRing, own, rfl⟩)
        · rename_i notOwn
          split at failed
          · rename_i run
            cases failed
            exact .inr (.inr ⟨noRing, notOwn, run⟩)
          · cases failed

theorem visitAll_error {terms : NameTable (Term K)} {visiting names placed : List String} {e : CompileError K}
    (failed : names.foldlM (visit terms visiting) placed = .error e) :
    ∃ name ∈ names, ∃ before, visit terms visiting before name = .error e := by
  induction names generalizing placed with
  | nil => cases failed
  | cons name rest ih =>
    rw [List.foldlM_cons] at failed
    cases visited : visit terms visiting placed name with
    | error cause =>
      rw [visited] at failed
      cases failed
      exact ⟨name, List.mem_cons_self, placed, visited⟩
    | ok middle =>
      rw [visited] at failed
      obtain ⟨next, member, before, here⟩ := ih failed
      exact ⟨next, List.mem_cons_of_mem _ member, before, here⟩

/-- The arrays being visited when a name is met: each mentions the next one, the last one the name, and none of them
mentions itself. -/
structure Trail (terms : NameTable (Term K)) (visiting : List String) (name : String) : Prop where
  linked : (visiting ++ [name]).IsChain (Mentions terms)
  unique : visiting.Nodup
  arrays : ∀ other ∈ visiting, IsArray terms other
  noSelf : ∀ other ∈ visiting, ¬ Mentions terms other other

theorem Trail.start (terms : NameTable (Term K)) (name : String) : Trail terms [] name where
  linked := List.isChain_singleton name
  unique := List.nodup_nil
  arrays _ member := absurd member List.not_mem_nil
  noSelf _ member := absurd member List.not_mem_nil

theorem Trail.enter {terms : NameTable (Term K)} {visiting : List String} {name next : String}
    (trail : Trail terms visiting name) (fresh : name ∉ visiting) (noSelf : ¬ Mentions terms name name)
    (mentioned : Mentions terms name next) : Trail terms (visiting ++ [name]) next where
  linked := by
    rw [List.append_assoc, List.singleton_append, List.isChain_append_cons_cons]
    exact ⟨trail.linked, mentioned, List.isChain_singleton next⟩
  unique := by
    refine List.nodup_append.mpr ⟨trail.unique, List.nodup_singleton name, ?_⟩
    rintro a known b same rfl
    exact fresh (List.mem_singleton.mp same ▸ known)
  arrays other member := by
    obtain ⟨elements, array, _⟩ := mentioned
    rcases List.mem_append.mp member with earlier | here
    · exact trail.arrays other earlier
    · obtain rfl := List.mem_singleton.mp here
      exact ⟨elements, array⟩
  noSelf other member := by
    rcases List.mem_append.mp member with earlier | here
    · exact trail.noSelf other earlier
    · obtain rfl := List.mem_singleton.mp here
      exact noSelf

/-- A trail that comes back to one of its arrays ends in a ring. -/
theorem Trail.isRing {terms : NameTable (Term K)} {visiting : List String} {name : String}
    (trail : Trail terms visiting name) (met : name ∈ visiting) :
    IsRing terms (visiting.dropWhile (· != name) ++ [name]) := by
  obtain ⟨front, back, rfl⟩ := List.append_of_mem met
  have unique := List.nodup_append.mp trail.unique
  have first : ∀ other ∈ front, (other != name) = true := by
    intro other member
    exact bne_iff_ne.mpr (unique.2.2 other member name List.mem_cons_self)
  have cut : (front ++ name :: back).dropWhile (· != name) = name :: back := by
    rw [List.dropWhile_append_of_pos first, List.dropWhile_cons_of_neg (by simp)]
  have open_ : (name :: back ++ [name]).dropLast = name :: back := List.dropLast_concat
  have linked : (name :: back ++ [name]).IsChain (Mentions terms) := by
    have whole := trail.linked
    rw [List.append_assoc] at whole
    exact whole.right_of_append
  rw [cut]
  refine ⟨?_, ?_, ?_, ?_, linked⟩
  · rw [List.getLast?_concat]
    rfl
  · rw [open_]
    -- With nothing behind it the name would mention itself.
    cases back with
    | nil => exact absurd (List.isChain_pair.mp linked) (trail.noSelf name met)
    | cons next rest => simp
  · rw [open_]
    exact unique.2.1
  · rw [open_]
    exact fun other member => trail.arrays other (List.mem_append_right _ member)

variable [Scalar K]

/-- The induction is on the arrays that are not being visited; a trail leads to every visit. -/
theorem visit_blames (terms : NameTable (Term K)) (visiting placed : List String) (name : String) (e : CompileError K)
    (trail : Trail terms visiting name) (failed : visit terms visiting placed name = .error e) : Blames terms e := by
  induction size : (unvisited terms visiting).length using Nat.strong_induction_on
    generalizing visiting placed name e with
  | _ size ih =>
    obtain ⟨elements, array, ⟨met, rfl⟩ | ⟨fresh, own, rfl⟩ | ⟨fresh, notOwn, run⟩⟩ := visit_error failed
    · exact trail.isRing met
    · exact ⟨elements, arrayOf?_eq_some_iff.mp array, own⟩
    · have found := arrayOf?_eq_some_iff.mp array
      have noSelf : ¬ Mentions terms name name := by
        rintro ⟨others, again, own⟩
        rw [found] at again
        cases again
        exact notOwn own
      obtain ⟨next, member, before, inside⟩ := visitAll_error run
      have refers : next ∈ referencesOfAll elements := by simpa using (mem_gather _ _ _).mp member
      have fewer := size ▸ unvisited_length_lt array fresh
      exact ih _ fewer _ before next e (trail.enter fresh noSelf ⟨elements, found, refers⟩) inside rfl

theorem atoms_cons {term : Term K} (isAtom : term.IsAtom) (name : String) (rest : List (String × Term K)) :
    atoms ((name, term) :: rest) = (atoms rest).map (List.cons name) := by
  cases term with
  | number value | descriptor value =>
    have finite : Scalar.isFinite value = true := isAtom
    simp only [atoms, classify, kind?, finite, if_true]
    cases atoms rest <;> rfl
  | producer | built =>
    simp only [atoms, classify, kind?]
    cases atoms rest <;> rfl
  | reference | token | array => cases isAtom

theorem atoms_blames {terms : NameTable (Term K)} {entries : List (String × Term K)} {e : CompileError K}
    (bound : ∀ entry ∈ entries, terms.get? entry.1 = some entry.2) (failed : atoms entries = .error e) :
    Blames terms e := by
  induction entries with
  | nil => cases failed
  | cons entry rest ih =>
    obtain ⟨name, term⟩ := entry
    have found : terms.get? name = some term := bound (name, term) List.mem_cons_self
    have later (failed : atoms rest = .error e) : Blames terms e :=
      ih (fun entry member => bound entry (List.mem_cons_of_mem _ member)) failed
    have passed (isAtom : term.IsAtom) : Blames terms e := by
      rw [atoms_cons isAtom] at failed
      cases run : atoms rest with
      | error cause =>
        rw [run] at failed
        cases failed
        exact later run
      | ok names =>
        rw [run] at failed
        cases failed
    cases term with
    | number value | descriptor value =>
      by_cases finite : Scalar.isFinite value = true
      · exact passed finite
      · simp only [atoms, classify, kind?, finite, Bool.false_eq_true, if_false] at failed
        cases failed
        exact ⟨name, value, found, by simp, by simpa using finite⟩
    | producer | built => exact passed trivial
    | array elements => exact later failed
    | reference reference =>
      cases failed
      exact found
    | token token =>
      cases failed
      exact found

theorem isAtom_of_atoms_ok {entries : List (String × Term K)} {names : List String} (listed : atoms entries = .ok names)
    {entry : String × Term K} (member : entry ∈ entries) (notArray : ∀ elements, entry.2 ≠ .array elements) :
    entry.2.IsAtom := by
  induction entries generalizing names with
  | nil => cases member
  | cons first rest ih =>
    obtain ⟨name, term⟩ := first
    have rest_ok : ∃ others, atoms rest = .ok others := by
      simp only [atoms] at listed
      split at listed
      · cases listed
      · exact ⟨_, listed⟩
      · cases listed
      · cases listed
      all_goals
        split at listed
        · cases listed
        · exact ⟨_, ‹_›⟩
    rcases List.mem_cons.mp member with rfl | later
    · cases term with
      | number value | descriptor value =>
        by_cases finite : Scalar.isFinite value = true
        · exact finite
        · simp only [atoms, classify, kind?, finite, Bool.false_eq_true, if_false] at listed
          cases listed
      | producer | built => exact trivial
      | array elements => exact absurd rfl (notArray elements)
      | reference | token => cases listed
    · obtain ⟨others, run⟩ := rest_ok
      exact ih run later

/-- Every error of the planner tells of a fault of the table. -/
theorem order_blames {terms : NameTable (Term K)} {e : CompileError K} (failed : order terms = .error e) :
    Blames terms e := by
  unfold order at failed
  split at failed
  · rename_i cause listed
    cases failed
    exact atoms_blames (fun _ member => NameTable.get?_of_mem member) listed
  · split at failed
    · rename_i cause run
      cases failed
      obtain ⟨name, _, before, here⟩ := visitAll_error run
      exact visit_blames terms [] before name _ (.start terms name) here
    · cases failed

theorem isAtom_of_order_ok {terms : NameTable (Term K)} {plan : Plan} (ordered : order terms = .ok plan) {name : String}
    {term : Term K} (found : terms.get? name = some term) (notArray : ∀ elements, term ≠ .array elements) :
    term.IsAtom := by
  unfold order at ordered
  split at ordered
  · cases ordered
  · rename_i names listed
    exact isAtom_of_atoms_ok listed (NameTable.mem_of_get? found) notArray

/-- Along references among arrays the place in a plan goes down. -/
theorem idxOf_lt_of_transGen {terms : NameTable (Term K)} {plan : Plan} (ordered : order terms = .ok plan)
    {name other : String} (path : Relation.TransGen (Links terms) name other) :
    plan.names.idxOf other < plan.names.idxOf name := by
  have step {name other : String} (link : Links terms name other) : plan.names.idxOf other < plan.names.idxOf name := by
    obtain ⟨⟨elements, array, refers⟩, _, key⟩ := link
    exact idxOf_lt_of_references ordered array refers (NameTable.mem_names_of_get? key)
  induction path with
  | single link => exact step link
  | tail _ link ih => exact Nat.lt_trans (step link) ih

theorem orderable_of_order_ok {terms : NameTable (Term K)} {plan : Plan} (ordered : order terms = .ok plan) :
    Orderable terms where
  atoms _ _ found notArray := isAtom_of_order_ok ordered found notArray
  noSelf name own := by
    obtain ⟨elements, array, refers⟩ := own
    exact Nat.lt_irrefl _ (idxOf_lt_of_references ordered array refers (NameTable.mem_names_of_get? array))
  noRing name ring := Nat.lt_irrefl _ (idxOf_lt_of_transGen ordered ring)

omit [Scalar K] in
theorem IsRing.transGen {terms : NameTable (Term K)} {chain : List String} (ring : IsRing terms chain) :
    ∃ name, Relation.TransGen (Links terms) name name := by
  obtain ⟨closed, several, _, arrays, linked⟩ := ring
  rcases List.eq_nil_or_concat chain with rfl | ⟨front, last, rfl⟩
  · simp at several
  · rw [List.concat_eq_append] at closed several arrays linked
    rw [List.dropLast_concat] at several arrays
    cases front with
    | nil => simp at several
    | cons first rest =>
      obtain rfl : first = last := by
        rw [List.getLast?_concat] at closed
        exact Option.some.inj closed
      have members : ∀ name ∈ first :: rest ++ [first], IsArray terms name := by
        intro name member
        refine arrays name ?_
        rcases List.mem_append.mp member with inside | again
        · exact inside
        · exact List.mem_singleton.mp again ▸ List.mem_cons_self
      have links : (first :: rest ++ [first]).IsChain (Links terms) :=
        linked.imp_of_mem_imp fun _ other _ member mentions => ⟨mentions, members other member⟩
      cases rest with
      | nil => simp at several
      | cons second rest =>
        obtain ⟨link, onwards⟩ := List.isChain_cons_cons.mp links
        have back : Relation.ReflTransGen (Links terms) second first :=
          List.relationReflTransGen_of_exists_isChain_cons (rest ++ [first]) onwards (by simp)
        exact ⟨first, Relation.TransGen.head' link back⟩

theorem Orderable.not_blames {terms : NameTable (Term K)} (orderable : Orderable terms) (e : CompileError K) :
    ¬ Blames terms e := by
  unfold Blames
  split
  · exact orderable.noSelf _
  · intro ring
    obtain ⟨name, path⟩ := ring.transGen
    exact orderable.noRing name path
  · intro found
    exact orderable.atoms _ _ found (by simp)
  · intro found
    exact orderable.atoms _ _ found (by simp)
  · rintro ⟨name, value, found, rfl | rfl, infinite⟩
    · exact absurd (orderable.atoms _ _ found (by simp)) (by simp [Term.IsAtom, infinite])
    · exact absurd (orderable.atoms _ _ found (by simp)) (by simp [Term.IsAtom, infinite])
  · exact id

/-- The planner orders exactly the tables without a fault, and what it says of any other table is true. -/
theorem order_ok_iff_orderable (terms : NameTable (Term K)) :
    ((∃ plan, order terms = .ok plan) ↔ Orderable terms) ∧ ∀ e, order terms = .error e → Blames terms e := by
  refine ⟨⟨?_, ?_⟩, fun e failed => order_blames failed⟩
  · rintro ⟨plan, ordered⟩
    exact orderable_of_order_ok ordered
  · intro orderable
    cases answer : order terms with
    | ok plan => exact ⟨plan, rfl⟩
    | error e => exact absurd (order_blames answer) (orderable.not_blames e)

/-- Two formulas share `side`, which is no ring; `inner` and `outer` need each other and are met first from `entry`. -/
def knot : NameTable (Term Rat) := .ofList [
  ("area", .array [.reference "width", .token (.operator .multiply), .reference "side"]),
  ("entry", .array [.reference "side", .token (.operator .add), .array [.array [.reference "outer"]]]),
  ("inner", .array [.reference "outer"]),
  ("outer", .array [.reference "width", .token (.operator .add), .reference "inner"]),
  ("side", .array [.number 5]),
  ("width", .array [.reference "side"])]

theorem knot_not_orderable :
    order knot = .error (.cyclicReference ["outer", "inner", "outer"]) ∧ ¬ Orderable knot ∧
      IsRing knot ["outer", "inner", "outer"] := by
  have refused : order knot = .error (.cyclicReference ["outer", "inner", "outer"]) := by cbv
  obtain ⟨exactly, truthful⟩ := order_ok_iff_orderable knot
  refine ⟨refused, fun orderable => ?_, truthful _ refused⟩
  obtain ⟨plan, ordered⟩ := exactly.mpr orderable
  rw [refused] at ordered
  cases ordered

end Plan
end ReactiveLayout
