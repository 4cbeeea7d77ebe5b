import Mathlib
import ReactiveLayout.Compilation
import ReactiveLayout.Proofs.BuildOrder

/-! A build takes producers over and never calls one. So other producers in their places make no difference to it: the
solver sees the same calls, and the same build comes out, with the other producers in it. Only the texts of errors,
which show the terms, may differ. -/
namespace ReactiveLayout

/-- Both answers are errors, or both are the same value. -/
inductive Alike {ε α : Type} : Except ε α → Except ε α → Prop where
  | ok (value : α) : Alike (.ok value) (.ok value)
  | error (e e' : ε) : Alike (.error e) (.error e')

namespace Alike
variable {ε α β : Type} {a b : Except ε α}

theorem refl : (a : Except ε α) → Alike a a
  | .ok value => .ok value
  | .error e => .error e e

theorem cases (alike : Alike a b) : (∃ value, a = .ok value ∧ b = .ok value) ∨ ∃ e e', a = .error e ∧ b = .error e' := by
  cases alike with
  | ok value => exact .inl ⟨value, rfl, rfl⟩
  | error e e' => exact .inr ⟨e, e', rfl, rfl⟩

theorem cases_map {b : Except ε β} {g : β → α} (alike : Alike a (b.map g)) :
    (∃ value, a = .ok (g value) ∧ b = .ok value) ∨ ∃ e e', a = .error e ∧ b = .error e' := by
  cases b with
  | ok value =>
    cases alike with
    | ok => exact .inl ⟨value, rfl, rfl⟩
  | error e' =>
    cases alike with
    | error e _ => exact .inr ⟨e, e', rfl, rfl⟩

end Alike

namespace NameTable
variable {α β : Type}

theorem contains_map (g : α → β) (t : NameTable α) (name : String) : (t.map g).contains name = t.contains name := by
  rw [contains, get?_map, Option.isSome_map, contains]

theorem erase_map (g : α → β) (t : NameTable α) (name : String) : (t.map g).erase name = (t.erase name).map g := by
  simp [erase, map, List.filter_map, Function.comp_def]

theorem insert_map (g : α → β) (t : NameTable α) (name : String) (value : α) :
    (t.map g).insert name (g value) = (t.insert name value).map g := by
  have placed (entries : List (String × α)) : place name (g value) (entries.map fun e => (e.1, g e.2)) =
      (place name value entries).map fun e => (e.1, g e.2) := by
    induction entries with
    | nil => rfl
    | cons entry rest ih =>
      simp only [List.map_cons, place]
      split
      · rfl
      · split
        · rfl
        · rw [ih, List.map_cons]
  simp only [insert, map, placed]

theorem union_map (g : α → β) (a b : NameTable α) : (a.map g).union (b.map g) = (a.union b).map g := by
  have inserted (entries : List (String × α)) (t : NameTable α) :
      (t.map g).insertAll (entries.map fun e => (e.1, g e.2)) = (t.insertAll entries).map g := by
    induction entries generalizing t with
    | nil => rfl
    | cons entry rest ih =>
      have step : (t.map g).insertAll ((entry :: rest).map fun e => (e.1, g e.2)) =
          ((t.map g).insert entry.1 (g entry.2)).insertAll (rest.map fun e => (e.1, g e.2)) := rfl
      rw [step, insert_map, ih]
      rfl
  exact inserted b.entries a

end NameTable

variable {K : Type}

namespace Term

mutual

/-- The term with other producers in their places. -/
def mapProducers (f : Producer K → Producer K) : Term K → Term K
  | .producer source => .producer (f source)
  | .array elements => .array (mapProducersOfAll f elements)
  | .number value => .number value
  | .descriptor value => .descriptor value
  | .reference name => .reference name
  | .token word => .token word
  | .built primitive => .built primitive

def mapProducersOfAll (f : Producer K → Producer K) : List (Term K) → List (Term K)
  | [] => []
  | term :: rest => mapProducers f term :: mapProducersOfAll f rest

end

variable (f : Producer K → Producer K)

theorem length_mapProducersOfAll : (elements : List (Term K)) → (mapProducersOfAll f elements).length = elements.length
  | [] => rfl
  | _ :: rest => congrArg Nat.succ (length_mapProducersOfAll rest)

mutual

theorem references_mapProducers : (term : Term K) → (term.mapProducers f).references = term.references
  | .array elements => by
    rw [mapProducers, references, references, referencesOfAll_mapProducersOfAll elements]
  | .producer _ | .number _ | .descriptor _ | .reference _ | .token _ | .built _ => rfl

theorem referencesOfAll_mapProducersOfAll : (elements : List (Term K)) →
    referencesOfAll (mapProducersOfAll f elements) = referencesOfAll elements
  | [] => rfl
  | term :: rest => by
    rw [mapProducersOfAll, referencesOfAll, referencesOfAll, references_mapProducers term,
      referencesOfAll_mapProducersOfAll rest]

end

end Term

def Specification.mapProducers (f : Producer K → Producer K) (spec : Specification K) : Specification K :=
  { spec with
    quantities := spec.quantities.map (Term.mapProducers f)
    formulas := spec.formulas.map (Term.mapProducers f)
    rules := spec.rules.map (Term.mapProducersOfAll f) }

def Model.mapProducers (f : Producer K → Producer K) (m : Model K) : Model K :=
  { m with producers := m.producers.map fun p => (p.1, f p.2) }

def Compilation.mapProducers (f : Producer K → Producer K) (c : Compilation K) : Compilation K :=
  { c with model := c.model.mapProducers f }

variable (f : Producer K → Producer K)

namespace Plan
open Term

theorem arrayOf?_map (terms : NameTable (Term K)) (name : String) :
    arrayOf? (terms.map (Term.mapProducers f)) name = (arrayOf? terms name).map (mapProducersOfAll f) := by
  unfold arrayOf?
  rw [NameTable.get?_map]
  cases terms.get? name with
  | none => rfl
  | some term =>
    cases term with
    | array elements => simp [Term.mapProducers]
    | number | descriptor | reference | token | producer | built => simp [Term.mapProducers]

/-- The visits hang on the references alone. -/
theorem visit_map (terms : NameTable (Term K)) (visiting placed : List String) (name : String) :
    visit (terms.map (Term.mapProducers f)) visiting placed name = visit terms visiting placed name := by
  induction size : (unvisited terms visiting).length using Nat.strong_induction_on
    generalizing visiting placed name with
  | _ size ih =>
    rw [visit_eq, visit_eq, arrayOf?_map]
    cases array : arrayOf? terms name with
    | none => rfl
    | some elements =>
      rw [Option.map_some]
      dsimp only
      rw [referencesOfAll_mapProducersOfAll]
      by_cases ring : name ∈ visiting
      · simp only [ring, if_true]
      · have fewer := size ▸ unvisited_length_lt array ring
        have inside : visit (terms.map (Term.mapProducers f)) (visiting ++ [name]) = visit terms (visiting ++ [name]) := by
          funext placed next
          exact ih _ fewer (visiting ++ [name]) placed next rfl
        rw [inside]

variable [Scalar K]

theorem atoms_map (entries : List (String × Term K)) :
    atoms (entries.map fun e => (e.1, e.2.mapProducers f)) = atoms entries := by
  induction entries with
  | nil => rfl
  | cons entry rest ih =>
    obtain ⟨name, term⟩ := entry
    rw [List.map_cons, atoms, atoms, ih]
    cases term with
    | number value | descriptor value | reference | token | built | producer | array => rfl

theorem order_map (terms : NameTable (Term K)) : order (terms.map (Term.mapProducers f)) = order terms := by
  have listed : atoms (terms.map (Term.mapProducers f)).entries = atoms terms.entries := atoms_map f terms.entries
  simp only [order, listed, NameTable.names_map, visit_map]

end Plan

variable [Scalar K]

namespace Formula
open Term

variable (owner : String) (scope : Scope K)

mutual

theorem piece_alike : (term : Term K) → (previous : Option (Piece K)) →
    Alike (piece owner scope previous (term.mapProducers f)) (piece owner scope previous term)
  | .array elements, _ => by
    rw [Term.mapProducers, piece, piece]
    rcases (scan_alike elements none).cases with ⟨pieces, mapped, plain⟩ | ⟨e, e', mapped, plain⟩
    · rw [mapped, plain]
      exact .refl _
    · rw [mapped, plain]
      exact .error e e'
  | .producer _, _ => .error _ _
  | .number _, _ | .descriptor _, _ | .reference _, _ | .token _, _ | .built _, _ => .refl _

theorem scan_alike : (elements : List (Term K)) → (previous : Option (Piece K)) →
    Alike (scan owner scope previous (mapProducersOfAll f elements)) (scan owner scope previous elements)
  | [], _ => .refl _
  | term :: rest, previous => by
    rw [mapProducersOfAll, scan, scan]
    rcases (piece_alike term previous).cases with ⟨next, mapped, plain⟩ | ⟨e, e', mapped, plain⟩
    · rw [mapped, plain]
      dsimp only
      rcases (scan_alike rest (some next)).cases with ⟨pieces, mapped, plain⟩ | ⟨e, e', mapped, plain⟩
      · rw [mapped, plain]
        exact .refl _
      · rw [mapped, plain]
        exact .error e e'
    · rw [mapped, plain]
      exact .error e e'

end

theorem compile_alike (elements : List (Term K)) :
    Alike (compile owner (mapProducersOfAll f elements) scope) (compile owner elements scope) := by
  unfold compile
  rcases (scan_alike f owner scope elements none).cases with ⟨pieces, mapped, plain⟩ | ⟨e, e', mapped, plain⟩
  · rw [mapped, plain]
    exact .refl _
  · rw [mapped, plain]
    exact .error e e'

end Formula

namespace Rule
open Term

variable (scope : Scope K)

theorem operand_alike (term : Term K) : Alike (operand scope (term.mapProducers f)) (operand scope term) := by
  cases term with
  | array elements => exact Formula.compile_alike f owner scope elements
  | producer source => exact .error _ _
  | number | descriptor | reference | token | built => exact .refl _

omit [Scalar K] in
theorem strengthOf_alike (emphasis : List (Term K)) :
    Alike (strengthOf (mapProducersOfAll f emphasis)) (strengthOf emphasis) := by
  cases emphasis with
  | nil => exact .refl _
  | cons term rest =>
    cases term with
    | array | producer => exact .error _ _
    | number | descriptor | reference => exact .refl _
    | token word => cases word <;> exact .refl _
    | built primitive => cases primitive <;> exact .refl _

theorem weightOf_alike (emphasis : List (Term K)) :
    Alike (weightOf (mapProducersOfAll f emphasis)) (weightOf emphasis) := by
  cases emphasis with
  | nil => exact .refl _
  | cons term rest =>
    cases term with
    | array | producer => exact .error _ _
    | number | descriptor | reference | token | built => exact .refl _

theorem withEmphasis_alike (demand : Demand K) (emphasis : List (Term K)) :
    Alike (withEmphasis demand (mapProducersOfAll f emphasis)) (withEmphasis demand emphasis) := by
  have tail : (mapProducersOfAll f emphasis).tail = mapProducersOfAll f emphasis.tail := by
    cases emphasis <;> rfl
  unfold withEmphasis
  rw [tail]
  rcases (strengthOf_alike f emphasis).cases with ⟨strength, mapped, plain⟩ | ⟨e, e', mapped, plain⟩
  · rw [mapped, plain]
    dsimp only
    rcases (weightOf_alike f emphasis.tail).cases with ⟨weight, mapped, plain⟩ | ⟨e, e', mapped, plain⟩
    · rw [mapped, plain]
      exact .refl _
    · rw [mapped, plain]
      exact .error e e'
  · rw [mapped, plain]
    exact .error e e'

theorem relation_alike (left : Term K) (comparator : Comparator) (rest : List (Term K)) :
    Alike (relation scope (left.mapProducers f) comparator (mapProducersOfAll f rest))
      (relation scope left comparator rest) := by
  unfold relation
  simp only [List.length_cons, length_mapProducersOfAll]
  split
  · exact .error _ _
  · cases rest with
    | nil => exact .error _ _
    | cons right emphasis =>
      simp only [mapProducersOfAll]
      rcases (operand_alike f scope left).cases with ⟨l, mapped, plain⟩ | ⟨e, e', mapped, plain⟩
      · rw [mapped, plain]
        dsimp only
        rcases (operand_alike f scope right).cases with ⟨r, mapped, plain⟩ | ⟨e, e', mapped, plain⟩
        · rw [mapped, plain]
          exact withEmphasis_alike f _ emphasis
        · rw [mapped, plain]
          exact .error e e'
      · rw [mapped, plain]
        exact .error e e'

theorem stay_alike (left : Term K) (emphasis : List (Term K)) :
    Alike (stay scope (left.mapProducers f) (mapProducersOfAll f emphasis)) (stay scope left emphasis) := by
  unfold stay
  simp only [List.length_cons, length_mapProducersOfAll]
  split
  · exact .error _ _
  · rcases (operand_alike f scope left).cases with ⟨target, mapped, plain⟩ | ⟨e, e', mapped, plain⟩
    · rw [mapped, plain]
      exact withEmphasis_alike f _ emphasis
    · rw [mapped, plain]
      exact .error e e'

theorem compile_alike (tuple : List (Term K)) :
    Alike (compile scope (mapProducersOfAll f tuple)) (compile scope tuple) := by
  cases tuple with
  | nil => exact .refl _
  | cons left rest =>
    have blank : isBlank (left.mapProducers f) = isBlank left := by
      cases left with
      | array elements => cases elements <;> rfl
      | number | descriptor | reference | token | producer | built => rfl
    simp only [mapProducersOfAll, compile, blank]
    split
    · exact .error _ _
    · cases rest with
      | nil => exact stay_alike f scope left []
      | cons term more =>
        cases term with
        | token word =>
          cases word with
          | strict | operator => exact .error _ _
          | comparator comparator => exact relation_alike f scope left comparator more
          | strength strength => exact stay_alike f scope left (.token (.strength strength) :: more)
        | number value => exact stay_alike f scope left (.number value :: more)
        | descriptor value => exact stay_alike f scope left (.descriptor value :: more)
        | reference name => exact stay_alike f scope left (.reference name :: more)
        | producer source => exact stay_alike f scope left (.producer source :: more)
        | array elements => exact stay_alike f scope left (.array elements :: more)
        | built primitive => exact stay_alike f scope left (.built primitive :: more)

theorem compileAll_alike (tuples : List (List (Term K))) :
    Alike (compileAll scope (tuples.map (mapProducersOfAll f))) (compileAll scope tuples) := by
  induction tuples with
  | nil => exact .refl _
  | cons tuple rest ih =>
    rw [List.map_cons, compileAll, compileAll]
    rcases (compile_alike f scope tuple).cases with ⟨rule, mapped, plain⟩ | ⟨e, e', mapped, plain⟩
    · rw [mapped, plain]
      dsimp only
      rcases ih.cases with ⟨rules, mapped, plain⟩ | ⟨e, e', mapped, plain⟩
      · rw [mapped, plain]
        exact .refl _
      · rw [mapped, plain]
        exact .error e e'
    · rw [mapped, plain]
      exact .error e e'

end Rule

namespace Model
variable {σ : Type} [Solver σ K]

omit [Solver σ K] in
theorem initialOf_alike (name : String) (term : Term K) :
    Alike (initialOf name (term.mapProducers f)) ((initialOf name term).map fun read => (read.1, read.2.map f)) := by
  cases term with
  | number value | descriptor value =>
    by_cases finite : Scalar.isFinite value = true
    · simp only [Term.mapProducers, initialOf, Term.classify, Term.kind?, finite, if_true]
      exact .refl _
    · simp only [Term.mapProducers, initialOf, Term.classify, Term.kind?, finite, Bool.false_eq_true, if_false]
      exact .error _ _
  | producer source => exact .ok _
  | reference | token | array | built => exact .error _ _

omit [Solver σ K] in
theorem expressionOf_alike (name : String) (term : Term K) (scope : Scope K) :
    Alike (expressionOf name (term.mapProducers f) scope) (expressionOf name term scope) := by
  cases term with
  | array elements => exact Formula.compile_alike f name scope elements
  | producer => exact .error _ _
  | number | descriptor | reference | token | built => exact .refl _

/-- The same model up to the producers, and the same solver. -/
def SameBuild (mapped plain : Reply (BuildError K) (Model K) σ) : Prop :=
  Alike mapped.1 (plain.1.map (mapProducers f)) ∧ mapped.2 = plain.2

theorem addQuantity_alike (strength : Strength) (name : String) (term : Term K) (m : Model K) (solver : σ) :
    SameBuild f ((m.mapProducers f).addQuantity strength name (term.mapProducers f) solver)
      (m.addQuantity strength name term solver) := by
  unfold addQuantity
  rcases (initialOf_alike f name term).cases_map with ⟨⟨initial, producer⟩, mapped, plain⟩ | ⟨e, e', mapped, plain⟩
  · rw [mapped, plain]
    dsimp only
    have same : (m.mapProducers f).quantities = m.quantities := rfl
    rw [same]
    cases m.quantities.insert? name initial with
    | none => exact ⟨.error _ _, rfl⟩
    | some inserted =>
      obtain ⟨id, quantities⟩ := inserted
      dsimp only
      cases Solver.register id initial strength solver with
      | mk answer after =>
        cases answer with
        | error e => exact ⟨.error _ _, rfl⟩
        | ok =>
          refine ⟨?_, rfl⟩
          cases producer <;> simp [mapProducers, Except.map, Alike.refl]
  · rw [mapped, plain]
    exact ⟨.error _ _, rfl⟩

theorem addName_alike (strength : Strength) (quantities formulas : NameTable (Term K))
    (prebuilt : NameTable (Affine K)) (name : String) (m : Model K) (solver : σ) :
    SameBuild f (addName strength (quantities.map (Term.mapProducers f)) (formulas.map (Term.mapProducers f)) prebuilt
        name (m.mapProducers f) solver)
      (addName strength quantities formulas prebuilt name m solver) := by
  unfold addName
  rw [NameTable.get?_map, NameTable.get?_map]
  cases quantities.get? name with
  | some term => exact addQuantity_alike f strength name term m solver
  | none =>
    cases formulas.get? name with
    | none => exact ⟨.error _ _, rfl⟩
    | some term =>
      rw [Option.map_none, Option.map_some]
      dsimp only
      have same : (m.mapProducers f).scope prebuilt = m.scope prebuilt := rfl
      rw [same]
      rcases (expressionOf_alike f name term (m.scope prebuilt)).cases with ⟨e, mapped, plain⟩ | ⟨e, e', mapped, plain⟩
      · rw [mapped, plain]
        exact ⟨.ok _, rfl⟩
      · rw [mapped, plain]
        exact ⟨.error _ _, rfl⟩

theorem addNames_alike (strength : Strength) (quantities formulas : NameTable (Term K))
    (prebuilt : NameTable (Affine K)) (names : List String) (m : Model K) (solver : σ) :
    SameBuild f (addNames strength (quantities.map (Term.mapProducers f)) (formulas.map (Term.mapProducers f)) prebuilt
        names (m.mapProducers f) solver)
      (addNames strength quantities formulas prebuilt names m solver) := by
  induction names generalizing quantities m solver with
  | nil => exact ⟨.ok _, rfl⟩
  | cons name rest ih =>
    rw [addNames, addNames]
    obtain ⟨answers, solvers⟩ := addName_alike f strength quantities formulas prebuilt name m solver
    revert answers solvers
    generalize addName strength (quantities.map _) _ prebuilt name _ solver = mapped
    generalize addName strength quantities formulas prebuilt name m solver = plain
    obtain ⟨mappedAnswer, mappedSolver⟩ := mapped
    obtain ⟨answer, between⟩ := plain
    rintro answers rfl
    rcases answers.cases_map with ⟨middle, rfl, rfl⟩ | ⟨e, e', rfl, rfl⟩
    · dsimp only
      rw [NameTable.erase_map]
      exact ih (quantities.erase name) middle mappedSolver
    · exact ⟨.error _ _, rfl⟩

end Model

namespace Compilation
variable {σ : Type} [Solver σ K]

omit [Solver σ K] in
theorem planOf_mapProducers (spec : Specification K) : planOf (spec.mapProducers f) = planOf spec := by
  simp only [planOf, doubleName?, Specification.mapProducers, NameTable.names_map, NameTable.contains_map,
    NameTable.union_map, Plan.order_map]

/-- With other producers a build makes the same calls to its solver and succeeds alike. -/
theorem compile_mapProducers (spec : Specification K) (options : BuildOptions) (solver : σ) :
    Alike (compile (spec.mapProducers f) options solver).1 ((compile spec options solver).1.map (mapProducers f)) ∧
      (compile (spec.mapProducers f) options solver).2 = (compile spec options solver).2 := by
  unfold compile
  rw [planOf_mapProducers]
  cases planOf spec with
  | error e => exact ⟨.error _ _, rfl⟩
  | ok plan =>
    dsimp only
    have built : Model.SameBuild f
        (Model.build plan (spec.mapProducers f).quantities (spec.mapProducers f).formulas spec.prebuilt options solver)
        (Model.build plan spec.quantities spec.formulas spec.prebuilt options solver) :=
      Model.addNames_alike f options.editStrength spec.quantities spec.formulas spec.prebuilt plan.names {} solver
    have prebuilt : (spec.mapProducers f).prebuilt = spec.prebuilt := rfl
    have rules : (spec.mapProducers f).rules = spec.rules.map (Term.mapProducersOfAll f) := rfl
    rw [prebuilt, rules]
    revert built
    generalize Model.build plan (spec.mapProducers f).quantities _ spec.prebuilt options solver = mapped
    generalize Model.build plan spec.quantities spec.formulas spec.prebuilt options solver = plain
    obtain ⟨mappedAnswer, mappedSolver⟩ := mapped
    obtain ⟨answer, after⟩ := plain
    rintro ⟨answers, rfl⟩
    rcases answers.cases_map with ⟨model, rfl, rfl⟩ | ⟨e, e', rfl, rfl⟩
    · have scope : (model.mapProducers f).scope spec.prebuilt = model.scope spec.prebuilt := rfl
      dsimp only
      rw [scope]
      rcases (Rule.compileAll_alike f (model.scope spec.prebuilt) spec.rules).cases with
        ⟨rules, mapped, plain⟩ | ⟨e, e', mapped, plain⟩
      · rw [mapped, plain]
        dsimp only
        cases submit options rules mappedSolver with
        | mk answer final =>
          cases answer with
          | ok => exact ⟨.ok _, rfl⟩
          | error e => exact ⟨.error _ _, rfl⟩
      · rw [mapped, plain]
        exact ⟨.error _ _, rfl⟩
    · exact ⟨.error _ _, rfl⟩

end Compilation
end ReactiveLayout
