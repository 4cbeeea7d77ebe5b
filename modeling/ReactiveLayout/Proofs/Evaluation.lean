import Mathlib.Algebra.Field.Rat
import Mathlib.Tactic.Ring
import ReactiveLayout.Affine

/-! Affine expressions over the rationals evaluate as they are written. Dropping a term whose coefficient has become
zero changes no value, and dividing by a constant is the product with its reciprocal. -/
namespace ReactiveLayout.Affine
variable {values : QuantityId → Rat}

/-- The value of some terms without an offset. -/
def total (values : QuantityId → Rat) (terms : List (QuantityId × Rat)) : Rat :=
  (terms.map fun t => t.2 * values t.1).sum

@[simp] theorem total_nil : total values [] = 0 := rfl

@[simp] theorem total_cons (t : QuantityId × Rat) (rest : List (QuantityId × Rat)) :
    total values (t :: rest) = t.2 * values t.1 + total values rest :=
  List.sum_cons

theorem evaluate_eq (e : Affine Rat) (values : QuantityId → Rat) :
    e.evaluate values = e.offset + total values e.terms := by
  have summed (terms : List (QuantityId × Rat)) (start : Rat) :
      terms.foldl (fun sum t => sum + t.2 * values t.1) start = start + total values terms := by
    induction terms generalizing start with
    | nil => simp
    | cons t rest ih => rw [List.foldl_cons, ih, total_cons, add_assoc]
  exact summed e.terms e.offset

theorem total_addTerm (id : QuantityId) (coefficient : Rat) (terms : List (QuantityId × Rat)) :
    total values (addTerm id coefficient terms) = coefficient * values id + total values terms := by
  have fresh (rest : List (QuantityId × Rat)) :
      total values (if (0 : Rat) + coefficient == 0 then rest else (id, (0 : Rat) + coefficient) :: rest) =
        coefficient * values id + total values rest := by
    rw [zero_add]
    split
    · rename_i zero
      rw [beq_iff_eq.mp zero, zero_mul, zero_add]
    · rw [total_cons]
  induction terms with
  | nil => exact fresh []
  | cons t rest ih =>
    obtain ⟨other, c⟩ := t
    rw [addTerm]
    split
    · exact fresh ((other, c) :: rest)
    · split
      · rename_i same
        subst same
        split
        · rename_i zero
          have cancel : c + coefficient = 0 := beq_iff_eq.mp zero
          rw [total_cons, ← add_assoc, ← add_mul, add_comm coefficient c, cancel, zero_mul, zero_add]
        · simp only [total_cons]
          ring
      · rw [total_cons, total_cons, ih]
        ring

@[simp] theorem evaluate_quantity (id : QuantityId) : (quantity id : Affine Rat).evaluate values = values id := by
  rw [evaluate_eq]
  change (0 : Rat) + total values (addTerm id 1 []) = values id
  rw [total_addTerm, total_nil, zero_add, one_mul, add_zero]

@[simp] theorem evaluate_plus (a b : Affine Rat) :
    (a.plus b).evaluate values = a.evaluate values + b.evaluate values := by
  have added (terms start : List (QuantityId × Rat)) :
      total values (terms.foldl (fun terms t => addTerm t.1 t.2 terms) start) =
        total values start + total values terms := by
    induction terms generalizing start with
    | nil => simp
    | cons t rest ih =>
      rw [List.foldl_cons, ih, total_addTerm, total_cons]
      ring
  rw [evaluate_eq, evaluate_eq a, evaluate_eq b, plus, added]
  ring

@[simp] theorem evaluate_scale (e : Affine Rat) (factor : Rat) :
    (e.scale factor).evaluate values = e.evaluate values * factor := by
  have scaled (terms : List (QuantityId × Rat)) :
      total values ((terms.map fun t => (t.1, t.2 * factor)).filter fun t => !(t.2 == 0)) =
        total values terms * factor := by
    induction terms with
    | nil => simp
    | cons t rest ih =>
      rw [List.map_cons, total_cons, add_mul, ← ih]
      by_cases zero : t.2 * factor = 0
      · rw [List.filter_cons_of_neg (by simp [zero]), mul_right_comm, zero, zero_mul, zero_add]
      · rw [List.filter_cons_of_pos (by simp [zero]), total_cons]
        ring
  rw [evaluate_eq, evaluate_eq e, scale, scaled]
  ring

@[simp] theorem evaluate_neg (e : Affine Rat) : e.neg.evaluate values = -e.evaluate values := by
  rw [neg, evaluate_scale]
  ring

@[simp] theorem evaluate_minus (a b : Affine Rat) :
    (a.minus b).evaluate values = a.evaluate values - b.evaluate values := by
  rw [minus, evaluate_plus, evaluate_neg, sub_eq_add_neg]

/-- An expression looks at the values of its own quantities only. -/
theorem evaluate_congr {e : Affine Rat} {others : QuantityId → Rat} (same : ∀ id ∈ e.quantities, values id = others id) :
    e.evaluate values = e.evaluate others := by
  have products : (e.terms.map fun t => t.2 * values t.1) = e.terms.map fun t => t.2 * others t.1 := by
    refine List.map_congr_left fun t member => ?_
    rw [same t.1 (List.mem_map_of_mem member)]
  rw [evaluate_eq, evaluate_eq, total, total, products]

theorem evaluate_of_isConstant {e : Affine Rat} (isConstant : e.isConstant = true) :
    e.evaluate values = e.offset := by
  rw [evaluate_eq, List.isEmpty_iff.mp isConstant, total_nil, add_zero]

end ReactiveLayout.Affine

namespace ReactiveLayout

/-- What an operator does to two numbers. Nothing is divided by zero. -/
def Operator.result? (op : Operator) (x y : Rat) : Option Rat :=
  match op with
  | .add => some (x + y)
  | .subtract => some (x - y)
  | .multiply => some (x * y)
  | .divide => if y = 0 then none else some (x / y)

/-- An operation that stays affine takes the values of its operands to the value of its result. -/
theorem Affine.result?_of_apply {op : Operator} {a b e : Affine Rat} (applied : Affine.apply op a b = .ok e)
    (values : QuantityId → Rat) : op.result? (a.evaluate values) (b.evaluate values) = some (e.evaluate values) := by
  cases op with
  | add =>
    cases applied
    rw [Operator.result?, evaluate_plus]
  | subtract =>
    cases applied
    rw [Operator.result?, evaluate_minus]
  | multiply =>
    simp only [apply, times] at applied
    split at applied
    · rename_i right
      cases applied
      rw [Operator.result?, evaluate_scale, evaluate_of_isConstant right]
    · split at applied
      · rename_i left
        cases applied
        rw [Operator.result?, evaluate_scale, evaluate_of_isConstant left, mul_comm]
      · cases applied
  | divide =>
    simp only [apply, divide] at applied
    split at applied
    · cases applied
    · rename_i constant
      have right : b.isConstant = true := by simpa using constant
      split at applied
      · cases applied
      · rename_i nonzero
        have divisor : b.offset ≠ 0 := by simpa using nonzero
        split at applied
        · cases applied
          rw [Operator.result?, evaluate_of_isConstant right, if_neg divisor, evaluate_scale, mul_one_div]
        · cases applied

end ReactiveLayout
