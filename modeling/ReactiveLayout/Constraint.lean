import ReactiveLayout.Rule

/-! Rules as a simplex engine takes them: an affine form compared with zero, and one number for how firmly it is
held. -/
namespace ReactiveLayout
variable {K : Type}

/-- A demand in normal form: `form` compared with zero. -/
structure Constraint (K : Type) where
  form : Affine K
  comparator : Comparator
  /-- The number that its strength and weight come to. -/
  level : K

variable [Scalar K]

def Strength.level : Strength → K
  | weak => Scalar.ofRat 1
  | medium => Scalar.ofRat 1000
  | strong => Scalar.ofRat 1000000
  | required => Scalar.ofRat 1001001000

/-- A positive weight multiplies any strength but the required one, up to that one at most. -/
def Strength.weighted (strength : Strength) (weight : K) : K :=
  if strength = required ∨ weight ≤ 0 then strength.level
  else
    let product := strength.level * weight
    if product < required.level then product else required.level

def Comparator.holdsAt (comparator : Comparator) (x : K) : Bool :=
  match comparator with
  | lessOrEqual => decide (x ≤ 0)
  | greaterOrEqual => decide (0 ≤ x)
  | equal => x == 0

namespace Constraint

/-- The constraint of a rule, where a stay keeps the value that its target has at the given values. -/
def ofRule (values : QuantityId → K) (rule : Rule K) : Constraint K :=
  let level := rule.strength.weighted rule.weight
  match rule.demand with
  | .relation left comparator right => ⟨left.minus right, comparator, level⟩
  | .stay target => ⟨target.minus (.constant (target.evaluate values)), .equal, level⟩

def isHard (c : Constraint K) : Bool := !decide (c.level < Strength.required.level)

end Constraint
end ReactiveLayout
