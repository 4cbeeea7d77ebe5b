import ReactiveLayout.Model
import ReactiveLayout.Proofs.FormulaGrammar

/-! A term compiles alike in two scopes that bind its references alike, if no quantity is lost on the way. So what
was compiled in the middle of a build can be compared with the finished layout. -/
namespace ReactiveLayout
variable {K : Type} [Scalar K]

namespace Scope

/-- The second scope binds the given names as the first does, and has all its quantities. -/
structure Agrees (names : List String) (s wider : Scope K) : Prop where
  binding : ∀ name ∈ names, wider.binding? name = s.binding? name
  size : s.quantities.size ≤ wider.quantities.size

variable {s wider : Scope K} {names : List String}

theorem Agrees.mono {fewer : List String} (agrees : Agrees names s wider) (subset : ∀ name ∈ fewer, name ∈ names) :
    Agrees fewer s wider :=
  ⟨fun name member => agrees.binding name (subset name member), agrees.size⟩

theorem Agrees.accept {e accepted : Affine K} (agrees : Agrees names s wider) (resolved : s.accept e = .ok accepted) :
    wider.accept e = .ok accepted := by
  rw [accept_ok_iff] at resolved ⊢
  exact ⟨resolved.1, fun id member => Nat.lt_of_lt_of_le (resolved.2 id member) agrees.size⟩

theorem Agrees.primitive {primitive : Primitive K} {e : Affine K} (agrees : Agrees names s wider)
    (resolved : s.primitive primitive = .ok e) : wider.primitive primitive = .ok e := by
  cases primitive with
  | quantity id => exact agrees.accept resolved
  | expression e => exact agrees.accept resolved
  | strength strength => cases resolved

end Scope

namespace Formula
open Scope Term

variable {owner : String} {s wider : Scope K}

/-- The language of the second scope has what the first reads with references on which they agree. -/
theorem language_agrees :
    (∀ term x, Operand s term x → Agrees term.references s wider → Operand wider term x) ∧
      ∀ elements e, Sentence s elements e → Agrees (referencesOfAll elements) s wider → Sentence wider elements e := by
  apply language_induction
  · intro value finite _
    exact .number finite
  · intro name e bound agrees
    have same := agrees.binding name (by simp [references])
    exact .reference (same.trans bound)
  · intro inner e again agrees
    exact .array (again (by simpa only [references] using agrees))
  · intro primitive e resolved agrees
    exact operand_built_iff.mpr (agrees.primitive resolved)
  · intro elements start steps e stand folded agrees
    refine sentence_iff.mpr ⟨start, steps, ?_, folded⟩
    generalize woven start steps = pieces at stand
    induction stand with
    | nil => exact .nil
    | cons first _ ih =>
      have here := agrees.mono fun name member => List.mem_append_left _ member
      have later := agrees.mono fun name member => List.mem_append_right _ member
      cases first with
      | operand again => exact .cons (.operand (again here)) (ih later)
      | operator op => exact .cons (.operator op) (ih later)

theorem compile_agrees {elements : List (Term K)} {e : Affine K} (agrees : Agrees (referencesOfAll elements) s wider)
    (compiled : compile owner elements s = .ok e) : compile owner elements wider = .ok e :=
  compile_of_sentence (language_agrees.2 elements e (sentence_of_compile compiled) agrees)

end Formula

theorem Model.expressionOf_agrees {name : String} {term : Term K} {s wider : Scope K} {e : Affine K}
    (agrees : Scope.Agrees term.references s wider) (compiled : expressionOf name term s = .ok e) :
    expressionOf name term wider = .ok e := by
  unfold expressionOf at compiled ⊢
  cases classified : term.classify with
  | error e =>
    rw [classified] at compiled
    cases compiled
  | ok kind =>
    rw [classified] at compiled
    cases kind with
    | literal value => exact compiled
    | array elements =>
      obtain rfl := Term.classify_eq_array_iff.mp classified
      exact Formula.compile_agrees (by simpa only [Term.references] using agrees) compiled
    | built primitive =>
      cases primitive with
      | strength strength => cases compiled
      | quantity id | expression e => exact agrees.primitive compiled
    | reference name | descriptor value | producer source | token token => cases compiled

end ReactiveLayout
