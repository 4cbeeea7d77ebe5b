import ReactiveLayout.Proofs.RuleGrammar

/-! Rewriting inside arrays. A step turns one list of elements into another; its closure takes steps at any depth and any
number of them. A step that keeps what every list comes to, in either direction, is kept by the closure: the nested
array that a step works in is one operand of the array around it, and an operand may be replaced by one that stands for
the same expressions. -/
namespace ReactiveLayout.Formula

section
variable {K : Type}

/-- The lists of elements that steps turn into each other, at any depth. -/
inductive Rewrites (step : List (Term K) → List (Term K) → Prop) : List (Term K) → List (Term K) → Prop where
  | refl (elements : List (Term K)) : Rewrites step elements elements
  | step {elements others : List (Term K)} (here : step elements others) : Rewrites step elements others
  | inside {inner others : List (Term K)} (front back : List (Term K)) (deeper : Rewrites step inner others) :
      Rewrites step (front ++ .array inner :: back) (front ++ .array others :: back)
  | trans {first second third : List (Term K)} (early : Rewrites step first second) (late : Rewrites step second third) :
      Rewrites step first third

/-- What depends on an element only through what `R` relates it to may have the element replaced. -/
theorem forall₂_replace {α β : Type} {R : α → β → Prop} {old new : α} (alike : ∀ b, R old b ↔ R new b)
    (front back : List α) (related : List β) :
    List.Forall₂ R (front ++ old :: back) related ↔ List.Forall₂ R (front ++ new :: back) related := by
  induction front generalizing related with
  | nil => simp only [List.nil_append, List.forall₂_cons_left_iff, alike]
  | cons first rest ih => simp only [List.cons_append, List.forall₂_cons_left_iff, ih]

theorem stands_iff_of_noToken {R : Term K → Affine K → Prop} {term : Term K} (noToken : ∀ token, term ≠ .token token)
    {p : Piece K} : Stands R term p ↔ ∃ e, p = .operand e ∧ R term e := by
  constructor
  · intro stands
    cases stands with
    | operand stands => exact ⟨_, rfl, stands⟩
    | operator op => exact absurd rfl (noToken (.operator op))
  · rintro ⟨e, rfl, stands⟩
    exact .operand stands

end

variable {K : Type} [Scalar K] {scope : Scope K}

theorem sentence_replace {old new : Term K} (oldNoToken : ∀ token, old ≠ .token token)
    (newNoToken : ∀ token, new ≠ .token token) (alike : ∀ x, Operand scope old x ↔ Operand scope new x)
    (front back : List (Term K)) (e : Affine K) :
    Sentence scope (front ++ old :: back) e ↔ Sentence scope (front ++ new :: back) e := by
  have pieces (p : Piece K) : Stands (Operand scope) old p ↔ Stands (Operand scope) new p := by
    simp only [stands_iff_of_noToken oldNoToken, stands_iff_of_noToken newNoToken, alike]
  simp only [sentence_iff, forall₂_replace pieces front back]

theorem operand_nested_iff {elements : List (Term K)} {e : Affine K} :
    Operand scope (.array elements) e ↔ Sentence scope elements e := by
  constructor
  · intro operand
    cases operand with
    | array inner => exact inner
  · exact .array

theorem sentence_singleton_iff {term : Term K} {e : Affine K} : Sentence scope [term] e ↔ Operand scope term e := by
  constructor
  · intro sentence
    obtain ⟨start, steps, stand, folded⟩ := sentence_iff.mp sentence
    cases stand with
    | cons first none =>
      cases steps with
      | nil =>
        cases folded
        cases first with
        | operand operand => exact operand
      | cons step rest => cases none
  · intro operand
    exact sentence_iff.mpr ⟨e, [], .cons (.operand operand) .nil, rfl⟩

/-- A step turns a list into one that comes to the same, if to anything. -/
def KeepsSentences (scope : Scope K) (step : List (Term K) → List (Term K) → Prop) : Prop :=
  ∀ elements others, step elements others → ∀ e, Sentence scope elements e ↔ Sentence scope others e

variable {step : List (Term K) → List (Term K) → Prop}

theorem Rewrites.sentence_iff {elements others : List (Term K)} (rewritten : Rewrites step elements others)
    (kept : KeepsSentences scope step) (e : Affine K) : Sentence scope elements e ↔ Sentence scope others e := by
  induction rewritten generalizing e with
  | refl => rfl
  | step here => exact kept _ _ here e
  | inside front back _ ih =>
    have alike (x : Affine K) := operand_nested_iff.trans ((ih x).trans operand_nested_iff.symm)
    exact sentence_replace (by simp) (by simp) alike front back e
  | trans _ _ first second => exact (first e).trans (second e)

theorem Rewrites.compile_iff {elements others : List (Term K)} (rewritten : Rewrites step elements others)
    (kept : KeepsSentences scope step) (owner : String) (e : Affine K) :
    compile owner elements scope = .ok e ↔ compile owner others scope = .ok e :=
  ⟨fun compiled => compile_of_sentence ((rewritten.sentence_iff kept e).mp (sentence_of_compile compiled)),
    fun compiled => compile_of_sentence ((rewritten.sentence_iff kept e).mpr (sentence_of_compile compiled))⟩

theorem Rewrites.operand_iff {old new : Term K} (rewritten : Rewrites step [old] [new])
    (kept : KeepsSentences scope step) (e : Affine K) : Operand scope old e ↔ Operand scope new e := by
  rw [← sentence_singleton_iff, ← sentence_singleton_iff]
  exact rewritten.sentence_iff kept e

end ReactiveLayout.Formula
