import ReactiveLayout.Proofs.BuildCalls
import ReactiveLayout.Proofs.Numbering

/-! What the place of a name in the plan decides. In front of an array all quantities are built, and in front of any
other name those with smaller names. The rest of a layout hangs on no place: along any order in which the formulas
compile to what a finished layout holds, that layout is built again. -/
namespace ReactiveLayout
variable {K : Type}

namespace Plan
variable [Scalar K] {terms : NameTable (Term K)} {plan : Plan} {front back : List String} {name : String}

/-- Everything that is no array stands in front of each array. -/
theorem atoms_prefix_front (ordered : order terms = .ok plan) (split : plan.names = front ++ name :: back)
    (array : (arrayOf? terms name).isSome = true) :
    (terms.names.filter fun name => (arrayOf? terms name).isNone) <+: front := by
  have notAtom : name ∉ terms.names.filter fun name => (arrayOf? terms name).isNone := by
    intro atom
    have isNone := (List.mem_filter.mp atom).2
    rw [Option.isNone_eq_false_iff.mpr array] at isNone
    cases isNone
  have whole := atoms_prefix_order ordered
  rw [split] at whole
  rcases List.prefix_or_prefix_of_prefix whole (List.prefix_append front (name :: back)) with before | ⟨rest, same⟩
  · exact before
  · rw [← same] at whole notAtom ⊢
    cases rest with
    | nil => rw [List.append_nil]
    | cons first rest =>
      obtain ⟨further, whole⟩ := whole
      rw [List.append_assoc, List.append_cancel_left_eq, List.cons_append] at whole
      obtain rfl : first = name := (List.cons.inj whole).1
      exact absurd (List.mem_append_right _ List.mem_cons_self) notAtom

theorem pairwise_of_atom (ordered : order terms = .ok plan) (split : plan.names = front ++ name :: back)
    (atom : (arrayOf? terms name).isNone = true) {other : String} (otherAtom : (arrayOf? terms other).isNone = true) :
    (other ∈ front → other < name) ∧ (other ∈ back → name < other) := by
  have sorted : (plan.names.filter fun name => (arrayOf? terms name).isNone).Pairwise (· < ·) := by
    rw [filter_order ordered fun _ _ isAtom => isAtom]
    exact terms.ordered.filter _
  rw [split, List.filter_append, List.filter_cons_of_pos (p := fun name => (arrayOf? terms name).isNone) atom]
    at sorted
  obtain ⟨_, behind, across⟩ := List.pairwise_append.mp sorted
  constructor
  · intro early
    exact across other (List.mem_filter.mpr ⟨early, otherAtom⟩) name List.mem_cons_self
  · intro late
    exact (List.pairwise_cons.mp behind).1 other (List.mem_filter.mpr ⟨late, otherAtom⟩)

end Plan

namespace Specification
variable [Scalar K] {spec : Specification K} {name : String} {q : Quantity K}

theorem registrable?_of_undeclared (undeclared : spec.quantities.get? name = none) : spec.registrable? name = none := by
  rw [registrable?, undeclared]

theorem registrable?_name (found : spec.registrable? name = some q) : q.name = name := by
  unfold registrable? at found
  split at found
  · cases found
  · cases found
  · cases found
    rfl

end Specification

namespace Compilation
variable [Scalar K] {spec : Specification K} {plan : Plan} {front back : List String} {name : String}

theorem registrable_front_of_array (planned : planOf spec = .ok plan) (split : plan.names = front ++ name :: back)
    (array : (Plan.arrayOf? (spec.quantities.union spec.formulas) name).isSome = true) :
    front.filterMap spec.registrable? = spec.registrable := by
  obtain ⟨single, ordered⟩ := planOf_ok_iff.mp planned
  have none : (name :: back).filterMap spec.registrable? = [] := by
    refine List.filterMap_eq_nil_iff.mpr fun other late => Option.eq_none_iff_forall_ne_some.mpr fun q found => ?_
    obtain ⟨quantity, atom⟩ := Specification.atom_of_registrable single found
    have early := (Plan.atoms_prefix_front ordered split array).subset
      (List.mem_filter.mpr ⟨(NameTable.mem_names_union _ _ _).mpr (.inl quantity), atom⟩)
    have unique := Plan.order_nodup ordered
    rw [split] at unique
    exact (List.nodup_append.mp unique).2.2 other early other late rfl
  rw [← filterMap_plan planned, split, List.filterMap_append, none, List.append_nil]

/-- In front of any other name the quantities with smaller names are built. -/
theorem length_front_of_atom (planned : planOf spec = .ok plan) (split : plan.names = front ++ name :: back)
    (atom : (Plan.arrayOf? (spec.quantities.union spec.formulas) name).isNone = true)
    (every : spec.registrable.map (·.name) = spec.quantities.names) :
    (front.filterMap spec.registrable?).length = NameTable.rank spec.quantities.names name := by
  obtain ⟨single, ordered⟩ := planOf_ok_iff.mp planned
  have place {names : List String} {q : Quantity K} (member : q ∈ names.filterMap spec.registrable?) :
      q.name ∈ names ∧ (q.name ∈ front → q.name < name) ∧ (q.name ∈ back → name < q.name) := by
    obtain ⟨other, listed, found⟩ := List.mem_filterMap.mp member
    obtain ⟨_, isAtom⟩ := Specification.atom_of_registrable single found
    rw [Specification.registrable?_name found]
    exact ⟨listed, Plan.pairwise_of_atom ordered split atom isAtom⟩
  have early : ((front.filterMap spec.registrable?).map (·.name)).countP
      (fun other => NameTable.bytes other < NameTable.bytes name) = (front.filterMap spec.registrable?).length := by
    rw [← List.length_map (f := (·.name))]
    refine List.countP_eq_length.mpr fun other member => ?_
    obtain ⟨q, listed, rfl⟩ := List.mem_map.mp member
    rw [decide_eq_true_eq, NameTable.bytes_lt_iff]
    exact (place listed).2.1 (place listed).1
  have late : (((name :: back).filterMap spec.registrable?).map (·.name)).countP
      (fun other => NameTable.bytes other < NameTable.bytes name) = 0 := by
    refine List.countP_eq_zero.mpr fun other member => ?_
    obtain ⟨q, listed, rfl⟩ := List.mem_map.mp member
    rw [decide_eq_true_eq, NameTable.bytes_lt_iff]
    rcases List.mem_cons.mp (place listed).1 with here | behind
    · rw [here]
      exact String.lt_irrefl name
    · exact String.lt_asymm ((place listed).2.2 behind)
  rw [NameTable.rank, ← every, ← filterMap_plan planned, split, List.filterMap_append,
    List.map_append, List.countP_append, early, late, Nat.add_zero]

end Compilation

namespace Model
variable [Scalar K]

/-- A part of the layout `m`: what the names of `front` build. -/
structure Partly (spec : Specification K) (m : Model K) (front : List String) (x : Model K) : Prop where
  quantities : x.quantities.entries = front.filterMap spec.registrable?
  formulas : ∀ name ∈ front, x.formulas.get? name = m.formulas.get? name
  nothingElse : ∀ name, name ∉ front → x.formulas.get? name = none

variable {spec : Specification K} {m x : Model K} {front : List String} {name : String}

theorem Partly.start : Partly spec m [] {} where
  quantities := rfl
  formulas _ member := absurd member List.not_mem_nil
  nothingElse _ _ := rfl

theorem Partly.fresh (partly : Partly spec m front x) (absent : name ∉ front) : x.quantities.id? name = none := by
  rw [QuantityTable.id?_eq_none_iff, QuantityTable.names, partly.quantities]
  intro member
  obtain ⟨q, listed, rfl⟩ := List.mem_map.mp member
  obtain ⟨other, early, found⟩ := List.mem_filterMap.mp listed
  rw [Specification.registrable?_name found] at absent
  exact absent early

theorem Partly.quantity (partly : Partly spec m front x) (absent : name ∉ front) {term : Term K}
    (declared : spec.quantities.get? name = some term) (notArray : ∀ elements, term ≠ .array elements)
    (noFormula : m.formulas.get? name = none) (producers : List (QuantityId × Producer K)) :
    Partly spec m (front ++ [name])
      { x with quantities := ⟨x.quantities.entries ++ [⟨name, term.initial⟩]⟩, producers } where
  quantities := by
    rw [List.filterMap_append, ← partly.quantities]
    simp [Specification.registrable?_of_notArray declared notArray]
  formulas other member := by
    rcases List.mem_append.mp member with early | here
    · exact partly.formulas other early
    · obtain rfl := List.mem_singleton.mp here
      exact (partly.nothingElse other absent).trans noFormula.symm
  nothingElse other apart := partly.nothingElse other fun early => apart (List.mem_append_left _ early)

theorem Partly.formula (partly : Partly spec m front x) (undeclared : spec.quantities.get? name = none) {e : Affine K}
    (stored : m.formulas.get? name = some e) :
    Partly spec m (front ++ [name]) { x with formulas := x.formulas.insert name e } where
  quantities := by
    rw [List.filterMap_append, ← partly.quantities]
    simp [Specification.registrable?_of_undeclared undeclared]
  formulas other member := by
    rw [NameTable.get?_insert]
    split
    · rename_i here
      rw [here, stored]
    · rename_i different
      rcases List.mem_append.mp member with early | here
      · exact partly.formulas other early
      · exact absurd (List.mem_singleton.mp here) different
  nothingElse other apart := by
    have different : other ≠ name := fun here => apart (List.mem_append_right _ (List.mem_singleton.mpr here))
    rw [NameTable.get?_insert_ne _ _ different]
    exact partly.nothingElse other fun early => apart (List.mem_append_left _ early)

/-- Along any order in which every quantity has a value and every formula compiles to what `m` holds, `m` is built. -/
theorem rebuild {names : List String} (unique : names.Nodup)
    (quantities : ∀ name ∈ names, ∀ term, spec.quantities.get? name = some term →
      (∃ read, initialOf name term = .ok read) ∧ m.formulas.get? name = none)
    (formulas : ∀ front name back x, names = front ++ name :: back → spec.quantities.get? name = none →
      Partly spec m front x → ∃ term e, spec.formulas.get? name = some term ∧ m.formulas.get? name = some e ∧
        expressionOf name term (x.scope spec.prebuilt) = .ok e) :
    ∃ x, Compiles spec names {} x ∧ Partly spec m names x := by
  have onwards (back : List String) : ∀ front x, names = front ++ back → Partly spec m front x →
      ∃ last, Compiles spec back x last ∧ Partly spec m names last := by
    induction back with
    | nil =>
      rintro front x rfl partly
      exact ⟨x, .nil, (List.append_nil front).symm ▸ partly⟩
    | cons name rest ih =>
      intro front x split partly
      have further : names = (front ++ [name]) ++ rest := by rw [split, List.append_assoc, List.singleton_append]
      have absent : name ∉ front := by
        intro early
        rw [split] at unique
        exact (List.nodup_append.mp unique).2.2 name early name List.mem_cons_self rfl
      cases declared : spec.quantities.get? name with
      | some term =>
        have member : name ∈ names := split ▸ List.mem_append_right _ List.mem_cons_self
        obtain ⟨⟨⟨initial, producer⟩, read⟩, noFormula⟩ := quantities name member term declared
        obtain ⟨rfl, notArray⟩ := initialOf_ok read
        obtain ⟨last, run, whole⟩ := ih _ _ further (partly.quantity absent declared notArray noFormula
          (x.producers ++ (producer.map fun p => (x.quantities.size, p)).toList))
        exact ⟨last, .quantity declared read (partly.fresh absent) run, whole⟩
      | none =>
        obtain ⟨term, e, formula, stored, compiled⟩ := formulas front name rest x split declared partly
        obtain ⟨last, run, whole⟩ := ih _ _ further (partly.formula declared stored)
        exact ⟨last, .formula declared formula compiled run, whole⟩
  exact onwards names [] {} rfl .start

end Model
end ReactiveLayout
