import Mathlib
import ReactiveLayout.Proofs.MissingReference
import ReactiveLayout.Proofs.Resolution

/-! Other numbers for the same quantities. A renumbering that keeps the order of the numbers goes through the
arithmetic of expressions, since their terms stand in that order and no coefficient is touched; so it goes through
formulas and rules, if the scope that they are compiled in is renumbered and they have no number written in them. -/
namespace ReactiveLayout
variable {K : Type}

/-- The expression with other numbers for its quantities. -/
def Affine.renumber (f : QuantityId → QuantityId) (e : Affine K) : Affine K :=
  ⟨e.terms.map fun t => (f t.1, t.2), e.offset⟩

def Demand.renumber (f : QuantityId → QuantityId) : Demand K → Demand K
  | .relation left comparator right => .relation (left.renumber f) comparator (right.renumber f)
  | .stay target => .stay (target.renumber f)

/-- The rule with other numbers for its quantities, as firmly held. -/
def Rule.renumber (f : QuantityId → QuantityId) (rule : Rule K) : Rule K :=
  { rule with demand := rule.demand.renumber f }

variable {f : QuantityId → QuantityId}

namespace Affine

theorem renumber_of_constant {e : Affine K} (constant : e.quantities = []) : e.renumber f = e := by
  obtain ⟨terms, offset⟩ := e
  obtain rfl : terms = [] := List.map_eq_nil_iff.mp constant
  rfl

variable [Scalar K]

theorem addTerm_renumber (mono : StrictMono f) (id : QuantityId) (coefficient : K) (terms : List (QuantityId × K)) :
    addTerm (f id) coefficient (terms.map fun t => (f t.1, t.2)) =
      (addTerm id coefficient terms).map fun t => (f t.1, t.2) := by
  -- Where the term goes is decided by comparing numbers, and all comparisons come out the same.
  induction terms with
  | nil =>
    simp only [List.map_nil, addTerm]
    split <;> rfl
  | cons first rest ih =>
    obtain ⟨other, c⟩ := first
    simp only [List.map_cons, addTerm, mono.lt_iff_lt, mono.injective.eq_iff, ih]
    split
    · split <;> rfl
    · split
      · split <;> rfl
      · rfl

theorem quantity_renumber (mono : StrictMono f) (id : QuantityId) :
    (quantity id : Affine K).renumber f = quantity (f id) := by
  have added := addTerm_renumber mono id (1 : K) []
  rw [List.map_nil] at added
  rw [quantity, quantity, term, term, renumber, added]

theorem plus_renumber (mono : StrictMono f) (a b : Affine K) :
    (a.renumber f).plus (b.renumber f) = (a.plus b).renumber f := by
  have folded (added terms : List (QuantityId × K)) :
      (added.map fun t => (f t.1, t.2)).foldl (fun terms t => addTerm t.1 t.2 terms) (terms.map fun t => (f t.1, t.2)) =
        (added.foldl (fun terms t => addTerm t.1 t.2 terms) terms).map fun t => (f t.1, t.2) := by
    induction added generalizing terms with
    | nil => rfl
    | cons first rest ih => rw [List.map_cons, List.foldl_cons, List.foldl_cons, addTerm_renumber mono, ih]
  simp only [plus, renumber, folded]

theorem scale_renumber (e : Affine K) (factor : K) : (e.renumber f).scale factor = (e.scale factor).renumber f := by
  simp only [scale, renumber, List.map_map, List.filter_map, Function.comp_def]

omit [Scalar K] in
theorem isConstant_renumber (e : Affine K) : (e.renumber f).isConstant = e.isConstant := by
  simp only [isConstant, renumber, List.isEmpty_map]

/-- An operation that succeeds does so on renumbered operands, with the renumbered result. -/
theorem apply_renumber (mono : StrictMono f) {op : Operator} {a b e : Affine K} (applied : a.apply op b = .ok e) :
    (a.renumber f).apply op (b.renumber f) = .ok (e.renumber f) := by
  cases op with
  | add =>
    cases applied
    exact congrArg Except.ok (plus_renumber mono a b)
  | subtract =>
    cases applied
    rw [apply, minus, neg, scale_renumber, plus_renumber mono]
    rfl
  | multiply =>
    simp only [apply, times] at applied
    split at applied
    · rename_i right
      cases applied
      rw [apply, times, isConstant_renumber, if_pos right]
      exact congrArg Except.ok (scale_renumber a b.offset)
    · rename_i moving
      split at applied
      · rename_i left
        cases applied
        rw [apply, times, isConstant_renumber, if_neg moving, isConstant_renumber, if_pos left]
        exact congrArg Except.ok (scale_renumber b a.offset)
      · cases applied
  | divide =>
    have offset : (b.renumber f).offset = b.offset := rfl
    simp only [apply, divide] at applied
    split at applied
    · cases applied
    · rename_i constant
      split at applied
      · cases applied
      · rename_i nonzero
        split at applied
        · rename_i finite
          cases applied
          simp only [apply, divide, isConstant_renumber, offset, if_neg constant, if_neg nonzero, if_pos finite]
          exact congrArg Except.ok (scale_renumber a (1 / b.offset))
        · cases applied

end Affine

namespace Scope

/-- The second scope binds the given names as the first does, to expressions with other numbers. -/
def Renumbers [Scalar K] (f : QuantityId → QuantityId) (names : List String) (s wider : Scope K) : Prop :=
  ∀ name ∈ names, wider.binding? name = (s.binding? name).map (Affine.renumber f)

end Scope

variable [Scalar K] {s wider : Scope K}

namespace Formula
open Scope Term

def Piece.renumber (f : QuantityId → QuantityId) : Piece K → Piece K
  | .operand e => .operand (e.renumber f)
  | .operator op => .operator op

def renumberSteps (f : QuantityId → QuantityId) (steps : List (Operator × Affine K)) : List (Operator × Affine K) :=
  steps.map fun step => (step.1, step.2.renumber f)

omit [Scalar K] in
theorem woven_renumber (start : Affine K) (steps : List (Operator × Affine K)) :
    woven (start.renumber f) (renumberSteps f steps) = (woven start steps).map (Piece.renumber f) := by
  induction steps generalizing start with
  | nil => rfl
  | cons step rest ih =>
    rw [renumberSteps, List.map_cons, woven_cons, woven_cons, List.map_cons, List.map_cons, ← ih]
    rfl

theorem fold_renumber (mono : StrictMono f) {steps : List (Operator × Affine K)} {start e : Affine K}
    (folded : steps.foldlM (fun acc step => acc.apply step.1 step.2) start = .ok e) :
    (renumberSteps f steps).foldlM (fun acc step => acc.apply step.1 step.2) (start.renumber f) =
      .ok (e.renumber f) := by
  induction steps generalizing start with
  | nil =>
    cases folded
    rfl
  | cons step rest ih =>
    obtain ⟨next, applied, later⟩ := foldlM_cons_ok folded
    rw [renumberSteps, List.map_cons, List.foldlM_cons, Affine.apply_renumber mono applied]
    exact ih later

/-- What the language of a scope reads without a number written in it, the renumbered scope reads renumbered. -/
theorem language_renumber (mono : StrictMono f) :
    (∀ term x, Operand s term x → term.isRaw = true → Renumbers f term.references s wider →
      Operand wider term (x.renumber f)) ∧
    ∀ elements e, Sentence s elements e → allRaw elements = true → Renumbers f (referencesOfAll elements) s wider →
      Sentence wider elements (e.renumber f) := by
  apply language_induction
  · intro value finite _ _
    exact .number finite
  · intro name e bound _ renumbers
    refine .reference ?_
    rw [renumbers name (by simp [references]), bound]
    rfl
  · intro inner e again raw renumbers
    exact .array (again (by simpa only [isRaw] using raw) (by simpa only [references] using renumbers))
  · intro primitive e _ raw _
    cases raw
  · intro elements start steps e stand folded raw renumbers
    refine sentence_iff.mpr ⟨start.renumber f, renumberSteps f steps, ?_, fold_renumber mono folded⟩
    rw [woven_renumber]
    -- Piece by piece, where an operator stands for the same in every scope.
    generalize woven start steps = pieces at stand
    induction stand with
    | nil => exact .nil
    | cons first _ ih =>
      obtain ⟨rawHere, rawLater⟩ := Bool.and_eq_true_iff.mp raw
      have later := ih rawLater fun name member => renumbers name (List.mem_append_right _ member)
      cases first with
      | operand again =>
        exact .cons (.operand (again rawHere fun name member => renumbers name (List.mem_append_left _ member))) later
      | operator op => exact .cons (.operator op) later

theorem compile_renumber (mono : StrictMono f) {owner : String} {elements : List (Term K)} {e : Affine K}
    (raw : allRaw elements = true) (renumbers : Renumbers f (referencesOfAll elements) s wider)
    (compiled : compile owner elements s = .ok e) : compile owner elements wider = .ok (e.renumber f) :=
  compile_of_sentence ((language_renumber mono).2 elements e (sentence_of_compile compiled) raw renumbers)

end Formula

theorem Model.expressionOf_renumber (mono : StrictMono f) {name : String} {term : Term K} {e : Affine K}
    (raw : term.isRaw = true) (renumbers : Scope.Renumbers f term.references s wider)
    (compiled : expressionOf name term s = .ok e) : expressionOf name term wider = .ok (e.renumber f) := by
  unfold expressionOf at compiled ⊢
  cases classified : term.classify with
  | error e =>
    rw [classified] at compiled
    cases compiled
  | ok kind =>
    rw [classified] at compiled
    cases kind with
    | literal value =>
      cases compiled
      rfl
    | array elements =>
      obtain rfl := Term.classify_eq_array_iff.mp classified
      refine Formula.compile_renumber mono ?_ ?_ compiled
      · simpa only [Term.isRaw] using raw
      · simpa only [Term.references] using renumbers
    | built primitive =>
      cases term with
      | built => cases raw
      | number value | descriptor value =>
        by_cases finite : Scalar.isFinite value = true <;> simp [Term.classify, Term.kind?, finite] at classified
      | reference | token | producer | array => cases classified
    | reference name | descriptor value | producer source | token token => cases compiled

namespace Rule
open Term

omit [Scalar K] in
theorem isRaw_of_getElem? {tuple : List (Term K)} (raw : allRaw tuple = true) {i : Nat} {term : Term K}
    (found : tuple[i]? = some term) : term.isRaw = true := by
  induction tuple generalizing i with
  | nil => cases found
  | cons first rest ih =>
    obtain ⟨here, later⟩ := Bool.and_eq_true_iff.mp raw
    cases i with
    | zero =>
      cases found
      exact here
    | succ i => exact ih later found

theorem writes_renumber (mono : StrictMono f) {tuple : List (Term K)} {rule : Rule K} (raw : allRaw tuple = true)
    (renumbers : Scope.Renumbers f (referencesOfAll tuple) s wider) (writes : Writes s tuple rule) :
    Writes wider tuple (rule.renumber f) := by
  have operand {i : Nat} {term : Term K} {e : Affine K} (found : tuple[i]? = some term)
      (operand : Formula.Operand s term e) : Formula.Operand wider term (e.renumber f) :=
    (Formula.language_renumber mono).1 term e operand (isRaw_of_getElem? raw found) fun name refers =>
      renumbers name (mem_referencesOfAll_iff.mpr ⟨i, term, found, refers⟩)
  cases writes with
  | relation length first leads left second third right fourth fifth =>
    exact .relation length first leads (operand first left) second third (operand third right) fourth fifth
  | stay length first leads target second third =>
    exact .stay length first leads (operand first target) second third

theorem compileAll_renumber (mono : StrictMono f) {tuples : List (List (Term K))} {rules : List (Rule K)}
    (raw : ∀ tuple ∈ tuples, allRaw tuple = true)
    (renumbers : ∀ tuple ∈ tuples, Scope.Renumbers f (referencesOfAll tuple) s wider)
    (compiled : compileAll s tuples = .ok rules) : compileAll wider tuples = .ok (rules.map (renumber f)) := by
  have each := compileAll_ok compiled
  clear compiled
  induction each with
  | nil => rfl
  | @cons tuple rule _ _ first _ ih =>
    have here := compile_of_writes (writes_renumber mono (raw tuple List.mem_cons_self)
      (renumbers tuple List.mem_cons_self) (writes_of_compile first))
    have later := ih (fun tuple member => raw tuple (List.mem_cons_of_mem _ member))
      fun tuple member => renumbers tuple (List.mem_cons_of_mem _ member)
    rw [compileAll, here]
    dsimp only
    rw [later]
    rfl

end Rule
end ReactiveLayout
