import ReactiveLayout.Proofs.Engine
import ReactiveLayout.Proofs.ExpressionAlgebra
import ReactiveLayout.Proofs.Ledger

/-! From rules to constraints. Both sides of a relation are brought together and compared with zero, and a stay is
compared with the value that its target has shown last, so a constraint says what its rule says. What cancels on the
way need not be registered, and everything else must be. -/
namespace ReactiveLayout

namespace Affine
variable {a b e : Affine Rat}

theorem coefficient_minus (left : IsNormal a.terms) (right : IsNormal b.terms) (id : QuantityId) :
    (a.minus b).coefficient id = a.coefficient id - b.coefficient id := by
  have normal : IsNormal (a.minus b).terms := left.plus b.neg
  -- The coefficient is what the quantity alone adds to the value at zero, on both sides and in the difference.
  have atZero : (a.minus b).offset = a.offset - b.offset := by
    rw [← evaluate_zero, evaluate_minus, evaluate_zero, evaluate_zero]
  have atUnit : (a.minus b).offset + (a.minus b).coefficient id =
      a.offset + a.coefficient id - (b.offset + b.coefficient id) := by
    rw [← evaluate_unitValues normal, evaluate_minus, evaluate_unitValues left, evaluate_unitValues right]
  linarith

theorem mem_quantities_iff (normal : IsNormal e.terms) (id : QuantityId) :
    id ∈ e.quantities ↔ e.coefficient id ≠ 0 := by
  constructor
  · intro mentioned
    obtain ⟨t, member, rfl⟩ := List.mem_map.mp mentioned
    rw [coefficient_of_mem normal member]
    exact beq_eq_false_iff_ne.mp (normal.nonzero t member)
  · exact not_imp_comm.mp coefficient_of_notMem

end Affine

namespace Rule

/-- What is left of a rule when its sides are brought together. -/
def simplified {K : Type} [Scalar K] (rule : Rule K) : Affine K :=
  match rule.demand with
  | .relation left _ right => left.minus right
  | .stay target => target

/-- The rule is on expressions that can be made. -/
def Arises (rule : Rule Rat) : Prop :=
  match rule.demand with
  | .relation left _ right => left.Arises ∧ right.Arises
  | .stay target => target.Arises

/-- What a rule demands depends on the quantity. -/
def Involves (rule : Rule Rat) (id : QuantityId) : Prop :=
  match rule.demand with
  | .relation left _ right => left.coefficient id ≠ right.coefficient id
  | .stay target => target.coefficient id ≠ 0

theorem lowered_quantities {K : Type} [Scalar K] (values : QuantityId → K) (rule : Rule K) :
    (Constraint.ofRule values rule).form.quantities = rule.simplified.quantities := by
  obtain ⟨demand, strength, weight⟩ := rule
  cases demand <;> rfl

theorem mem_simplified_iff {rule : Rule Rat} (arises : rule.Arises) (id : QuantityId) :
    id ∈ rule.simplified.quantities ↔ rule.Involves id := by
  obtain ⟨demand, strength, weight⟩ := rule
  cases demand with
  | relation left comparator right =>
    have normal : Affine.IsNormal (left.minus right).terms := arises.1.normal.plus right.neg
    rw [simplified, Affine.mem_quantities_iff normal, Affine.coefficient_minus arises.1.normal arises.2.normal]
    exact sub_ne_zero
  | stay target => exact Affine.mem_quantities_iff arises.normal id

end Rule

namespace EngineSolver
variable {τ K : Type} [Engine τ K] [Scalar K]

theorem constraint_error {s : EngineSolver τ K} {rule : Rule K} {e : SolverError K}
    (refused : s.constraint rule = .error e) :
    ∃ id ∈ rule.simplified.quantities, s.knows id = false ∧ e = .unknownQuantity id := by
  unfold constraint at refused
  dsimp only at refused
  rw [Rule.lowered_quantities] at refused
  split at refused
  · rename_i id unknown
    cases refused
    exact ⟨id, List.mem_of_find?_eq_some unknown, by simpa using List.find?_some unknown, rfl⟩
  · cases refused

theorem constraint_refuses_iff (s : EngineSolver τ K) (rule : Rule K) :
    (∃ e, s.constraint rule = .error e) ↔ ∃ id ∈ rule.simplified.quantities, s.knows id = false := by
  constructor
  · rintro ⟨e, refused⟩
    obtain ⟨id, mentioned, unknown, _⟩ := constraint_error refused
    exact ⟨id, mentioned, unknown⟩
  · rintro ⟨id, mentioned, unknown⟩
    cases lowered : s.constraint rule with
    | error e => exact ⟨e, rfl⟩
    | ok c =>
      obtain ⟨rfl, known⟩ := constraint_ok lowered
      rw [Rule.lowered_quantities] at known
      rw [known id mentioned] at unknown
      cases unknown

end EngineSolver

namespace Ledger

/-- After any run of inputs, taken or refused: a constraint holds at some values exactly when its rule holds there, with
a stay held at the values shown last, whatever was suggested since. A rule has no constraint exactly when it is left
with a quantity that is not registered, and then the error names one; it is left with the quantities that it involves. -/
theorem constraint_faithful {τ : Type} [Engine τ Rat] (inputs : List (Solver.Input Rat)) (rule : Rule Rat) :
    let l : Ledger τ Rat := ({} : Ledger τ Rat).run inputs
    l.solver = Solver.giveAll {} inputs ∧
    (∀ c, l.solver.constraint rule = .ok c → ∀ values, c.Holds values ↔ rule.Holds l.lastValue values) ∧
    ((∃ e, l.solver.constraint rule = .error e) ↔ ∃ id ∈ rule.simplified.quantities, l.last id = none) ∧
    (∀ e, l.solver.constraint rule = .error e →
      ∃ id ∈ rule.simplified.quantities, l.last id = none ∧ e = .unknownQuantity id) ∧
    (rule.Arises → ∀ id, id ∈ rule.simplified.quantities ↔ rule.Involves id) := by
  intro l
  have kept : l.IsKept := isKept_run inputs
  have unknown (id : QuantityId) : l.solver.knows id = false ↔ l.last id = none := by
    rw [kept.knows_eq, Option.isSome_eq_false_iff, Option.isNone_iff_eq_none]
  refine ⟨solver_run {} inputs, ?_, ?_, ?_, Rule.mem_simplified_iff⟩
  · intro c lowered values
    rw [(EngineSolver.constraint_ok lowered).1, kept.valueAt_eq]
    exact rule.holds_ofRule_iff l.lastValue values
  · simp only [EngineSolver.constraint_refuses_iff, unknown]
  · intro e refused
    obtain ⟨id, mentioned, missing, named⟩ := EngineSolver.constraint_error refused
    exact ⟨id, mentioned, (unknown id).mp missing, named⟩

/-- The stay is held at 30, although 90 was asked for since, and the quantity 1, whose registration was refused, may
stand on both sides of a relation. -/
theorem constraint_faithful_unsettled :
    let l : Ledger (Optimizer Rat) Rat :=
      ({} : Ledger (Optimizer Rat) Rat).run [.register 0 30 .weak, .register 1 5 .required, .suggest 0 90]
    let sum : Affine Rat := (Affine.quantity 0).plus (.quantity 1)
    (∃ c, l.solver.constraint ⟨.stay (.quantity 0), .strong, 0⟩ = .ok c ∧ ∀ values, c.Holds values ↔ values 0 = 30) ∧
    (∃ c, l.solver.constraint ⟨.relation sum .lessOrEqual (.quantity 1), .weak, 2⟩ = .ok c ∧
      ∀ values, c.Holds values ↔ values 0 + values 1 ≤ values 1) ∧
    ∃ e, l.solver.constraint ⟨.relation sum .equal (.constant 7), .required, 0⟩ = .error e := by
  intro l sum
  have shown : l.lastValue 0 = 30 := rfl
  have faithful := constraint_faithful (τ := Optimizer Rat)
    [.register 0 30 .weak, .register 1 5 .required, .suggest 0 90]
  have taken (rule : Rule Rat) (ok : (l.solver.constraint rule).isOk = true) : ∃ c, l.solver.constraint rule = .ok c := by
    cases lowered : l.solver.constraint rule with
    | ok c => exact ⟨c, rfl⟩
    | error e =>
      rw [lowered] at ok
      cases ok
  refine ⟨?_, ?_, ?_⟩
  · obtain ⟨c, lowered⟩ := taken ⟨.stay (.quantity 0), .strong, 0⟩ (by decide +kernel)
    refine ⟨c, lowered, fun values => ((faithful _).2.1 c lowered values).trans ?_⟩
    change (Affine.quantity 0).evaluate values = (Affine.quantity 0).evaluate l.lastValue ↔ values 0 = 30
    rw [Affine.evaluate_quantity, Affine.evaluate_quantity, shown]
  · obtain ⟨c, lowered⟩ := taken ⟨.relation sum .lessOrEqual (.quantity 1), .weak, 2⟩ (by decide +kernel)
    refine ⟨c, lowered, fun values => ((faithful _).2.1 c lowered values).trans ?_⟩
    change sum.evaluate values ≤ (Affine.quantity 1).evaluate values ↔ values 0 + values 1 ≤ values 1
    rw [Affine.evaluate_plus, Affine.evaluate_quantity, Affine.evaluate_quantity]
  · obtain ⟨_, _, refuses, _, leaves⟩ := faithful ⟨.relation sum .equal (.constant 7), .required, 0⟩
    have arises : sum.Arises := .combined (.quantity 0) (.quantity 1) .plus
    refine refuses.mpr ⟨1, (leaves ⟨arises, .constant 7⟩ 1).mpr ?_, rfl⟩
    change sum.coefficient 1 ≠ 0
    decide +kernel

end Ledger
end ReactiveLayout
