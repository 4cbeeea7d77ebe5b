import ReactiveLayout.Proofs.Evaluation
import ReactiveLayout.Proofs.NormalForm

/-! Over the rationals an expression is its function of the quantities: two expressions are the same exactly when they
evaluate alike everywhere. The offset is the value at zero and a coefficient the difference that its quantity makes
there, so whatever is to be known of an expression can be asked of its values, and the laws of the operations are laws
of the numbers. -/
namespace ReactiveLayout.Affine

/-- The values at which one quantity is one and every other quantity is zero. -/
def unitValues (id : QuantityId) : QuantityId → Rat := fun other => if other = id then 1 else 0

def IsFixed (e : Affine Rat) : Prop := ∃ x, ∀ values, e.evaluate values = x

theorem total_eq_zero {values : QuantityId → Rat} {terms : List (QuantityId × Rat)}
    (zero : ∀ t ∈ terms, values t.1 = 0) : total values terms = 0 := by
  induction terms with
  | nil => exact total_nil
  | cons first rest ih =>
    rw [total_cons, zero first List.mem_cons_self, mul_zero, zero_add]
    exact ih fun t later => zero t (List.mem_cons_of_mem _ later)

theorem evaluate_zero (e : Affine Rat) : e.evaluate (fun _ => 0) = e.offset := by
  rw [evaluate_eq, total_eq_zero fun _ _ => rfl, add_zero]

theorem evaluate_unitValues {e : Affine Rat} (normal : IsNormal e.terms) (id : QuantityId) :
    e.evaluate (unitValues id) = e.offset + e.coefficient id := by
  have single (terms : List (QuantityId × Rat)) (normal : IsNormal terms) :
      total (unitValues id) terms = (terms.lookup id).getD 0 := by
    induction terms with
    | nil => rfl
    | cons first rest ih =>
      obtain ⟨below, _, later⟩ := isNormal_cons.mp normal
      rw [total_cons, List.lookup_cons]
      by_cases here : first.1 = id
      · have beyond : total (unitValues id) rest = 0 :=
          total_eq_zero fun t member => if_neg (Nat.ne_of_gt (here ▸ below t member))
        rw [beyond, add_zero, unitValues, if_pos here, mul_one, beq_iff_eq.mpr here.symm, Option.getD_some]
      · rw [unitValues, if_neg here, mul_zero, zero_add, beq_eq_false_iff_ne.mpr (Ne.symm here)]
        exact ih later
  rw [evaluate_eq, single e.terms normal, coefficient]

/-- A stored coefficient is not the zero that stands for a missing one, so its term is in every normal form with the
same coefficients. -/
theorem mem_of_coefficient {a b : Affine Rat} (left : IsNormal a.terms) (right : IsNormal b.terms)
    (same : ∀ id, a.coefficient id = b.coefficient id) {t : QuantityId × Rat} (member : t ∈ a.terms) : t ∈ b.terms := by
  have stored : b.coefficient t.1 = t.2 := by rw [← same, coefficient_of_mem left member]
  have mentioned : t.1 ∈ b.quantities := by
    by_contra absent
    rw [coefficient_of_notMem absent] at stored
    exact beq_eq_false_iff_ne.mp (left.nonzero t member) stored.symm
  obtain ⟨s, among, sameId⟩ := List.mem_map.mp mentioned
  have sameTerm : s = t := by
    refine Prod.ext sameId ?_
    rw [← coefficient_of_mem right among, sameId, stored]
  exact sameTerm ▸ among

theorem eq_of_coefficient {a b : Affine Rat} (left : IsNormal a.terms) (right : IsNormal b.terms)
    (offset : a.offset = b.offset) (same : ∀ id, a.coefficient id = b.coefficient id) : a = b := by
  have nodup {terms : List (QuantityId × Rat)} (normal : IsNormal terms) : terms.Nodup :=
    normal.increasing.imp fun below => ne_of_apply_ne Prod.fst (Nat.ne_of_lt below)
  have perm : a.terms.Perm b.terms :=
    (List.perm_ext_iff_of_nodup (nodup left) (nodup right)).mpr fun _ =>
      ⟨mem_of_coefficient left right same, mem_of_coefficient right left fun id => (same id).symm⟩
  have terms : a.terms = b.terms :=
    perm.eq_of_pairwise (fun s t _ _ below above => absurd (Nat.lt_trans below above) (Nat.lt_irrefl _))
      left.increasing right.increasing
  obtain ⟨termsA, offsetA⟩ := a
  obtain rfl : termsA = b.terms := terms
  obtain rfl : offsetA = b.offset := offset
  rfl

theorem eq_iff_evaluate {a b : Affine Rat} (left : Arises a) (right : Arises b) :
    a = b ↔ ∀ values, a.evaluate values = b.evaluate values := by
  constructor
  · rintro rfl values
    rfl
  · intro same
    have offset : a.offset = b.offset := by rw [← evaluate_zero, ← evaluate_zero, same]
    refine eq_of_coefficient left.normal right.normal offset fun id => ?_
    have alike := same (unitValues id)
    rw [evaluate_unitValues left.normal, evaluate_unitValues right.normal, offset] at alike
    exact add_left_cancel alike

theorem beq_iff (a b : Affine Rat) : (a == b) = true ↔ a = b := by
  obtain ⟨termsA, offsetA⟩ := a
  obtain ⟨termsB, offsetB⟩ := b
  change (termsA == termsB && offsetA == offsetB) = true ↔ _
  simp

theorem evaluate_constant (x : Rat) (values : QuantityId → Rat) : (constant x).evaluate values = x := rfl

/-- Nothing but a constant has the same value everywhere, since no term with a coefficient of zero is kept. -/
theorem isConstant_of_fixed {e : Affine Rat} (arises : Arises e) {x : Rat} (fixed : ∀ values, e.evaluate values = x) :
    e.isConstant = true ∧ e.offset = x := by
  obtain rfl : e = constant x := (eq_iff_evaluate arises (.constant x)).mpr fixed
  exact ⟨rfl, rfl⟩

theorem isConstant_iff {e : Affine Rat} (arises : Arises e) : e.isConstant = true ↔ e.IsFixed :=
  ⟨fun constant => ⟨e.offset, fun _ => evaluate_of_isConstant constant⟩,
    fun ⟨_, fixed⟩ => (isConstant_of_fixed arises fixed).1⟩

theorem times_ok_iff {a b : Affine Rat} (left : Arises a) (right : Arises b) :
    (∃ e, a.times b = .ok e) ↔ a.IsFixed ∨ b.IsFixed := by
  rw [← isConstant_iff left, ← isConstant_iff right]
  cases constantA : a.isConstant <;> cases constantB : b.isConstant <;> simp [times, constantA, constantB]

theorem divide_ok_iff {a b : Affine Rat} (right : Arises b) :
    (∃ e, a.divide b = .ok e) ↔ ∃ x, x ≠ 0 ∧ ∀ values, b.evaluate values = x := by
  constructor
  · rintro ⟨e, divided⟩
    rw [divide] at divided
    split at divided
    · cases divided
    · rename_i constant
      split at divided
      · cases divided
      · rename_i nonzero
        have isConstant : b.isConstant = true := by simpa using constant
        exact ⟨b.offset, by simpa using nonzero, fun _ => evaluate_of_isConstant isConstant⟩
  · rintro ⟨x, nonzero, fixed⟩
    obtain ⟨isConstant, rfl⟩ := isConstant_of_fixed right fixed
    refine ⟨a.scale (1 / b.offset), ?_⟩
    rw [divide, isConstant]
    simp [nonzero, Scalar.isFinite]

theorem evaluate_times {a b e : Affine Rat} (multiplied : a.times b = .ok e) (values : QuantityId → Rat) :
    e.evaluate values = a.evaluate values * b.evaluate values := by
  have applied : apply .multiply a b = .ok e := multiplied
  exact (Option.some.inj (result?_of_apply applied values)).symm

theorem evaluate_divide {a b e : Affine Rat} (divided : a.divide b = .ok e) (values : QuantityId → Rat) :
    e.evaluate values = a.evaluate values / b.evaluate values := by
  have applied : apply .divide a b = .ok e := divided
  have result := result?_of_apply applied values
  rw [Operator.result?] at result
  split at result
  · cases result
  · exact (Option.some.inj result).symm

/-- The product comes out as it would the other way round: the order in which the operands are tried does not show. -/
theorem times_swap {a b e : Affine Rat} (left : Arises a) (right : Arises b) (multiplied : a.times b = .ok e) :
    b.times a = .ok e := by
  obtain ⟨f, swapped⟩ := (times_ok_iff right left).mpr ((times_ok_iff left right).mp ⟨e, multiplied⟩).symm
  have first : Arises e := .combined left right (.times multiplied)
  have second : Arises f := .combined right left (.times swapped)
  obtain rfl : e = f := (eq_iff_evaluate first second).mpr fun values => by
    rw [evaluate_times multiplied, evaluate_times swapped, mul_comm]
  exact swapped

/-- What the operations on two expressions come to. -/
structure Laws (a b : Affine Rat) : Prop where
  plus : ∀ values, (a.plus b).evaluate values = a.evaluate values + b.evaluate values
  minus : ∀ values, (a.minus b).evaluate values = a.evaluate values - b.evaluate values
  neg : ∀ values, a.neg.evaluate values = -a.evaluate values
  times_ok : (∃ e, a.times b = .ok e) ↔ a.IsFixed ∨ b.IsFixed
  times : ∀ e, a.times b = .ok e → ∀ values, e.evaluate values = a.evaluate values * b.evaluate values
  divide_ok : (∃ e, a.divide b = .ok e) ↔ ∃ x, x ≠ 0 ∧ ∀ values, b.evaluate values = x
  divide : ∀ e, a.divide b = .ok e → ∀ values, e.evaluate values = a.evaluate values / b.evaluate values
  equal : a = b ↔ ∀ values, a.evaluate values = b.evaluate values
  same : (a == b) = true ↔ ∀ values, a.evaluate values = b.evaluate values
  plus_comm : a.plus b = b.plus a
  minus_self : a.minus a = .constant 0
  times_comm : ∀ e, a.times b = .ok e ↔ b.times a = .ok e

/-- The algebra is exact, and equality of expressions is equality of their values. -/
theorem laws_of_arises :
    (∀ a b, Arises a → Arises b → Laws a b) ∧
      ∀ a b c : Affine Rat, Arises a → Arises b → Arises c → (a.plus b).plus c = a.plus (b.plus c) := by
  have sum {a b : Affine Rat} (left : Arises a) (right : Arises b) : Arises (a.plus b) := .combined left right .plus
  constructor
  · intro a b left right
    exact {
      plus := fun _ => evaluate_plus a b
      minus := fun _ => evaluate_minus a b
      neg := fun _ => evaluate_neg a
      times_ok := times_ok_iff left right
      times := fun _ multiplied => evaluate_times multiplied
      divide_ok := divide_ok_iff right
      divide := fun _ divided => evaluate_divide divided
      equal := eq_iff_evaluate left right
      same := (beq_iff a b).trans (eq_iff_evaluate left right)
      plus_comm := (eq_iff_evaluate (sum left right) (sum right left)).mpr fun values => by
        rw [evaluate_plus, evaluate_plus, add_comm]
      minus_self := (eq_iff_evaluate (.combined left left .minus) (.constant 0)).mpr fun values => by
        rw [evaluate_minus, sub_self, evaluate_constant]
      times_comm := fun _ => ⟨times_swap left right, times_swap right left⟩ }
  · intro a b c left middle right
    refine (eq_iff_evaluate (sum (sum left middle) right) (sum left (sum middle right))).mpr fun values => ?_
    simp only [evaluate_plus, add_assoc]

/-- Quantities that cancel make a divisor constant, and products and sums do not show how they were made. -/
theorem laws_of_arises_cancelled :
    let a : Affine Rat := .term 1 (1 / 3)
    let b : Affine Rat := ((Affine.quantity 0).plus (.constant 2)).minus (.quantity 0)
    (a.divide b = .ok (.term 1 (1 / 6)) ∧ Laws a b) ∧ (a.plus b).plus a = a.plus (b.plus a) := by
  intro a b
  have first : Arises a := .term 1 (1 / 3)
  have second : Arises b := .combined (.combined (.quantity 0) (.constant 2) .plus) (.quantity 0) .minus
  exact ⟨⟨by decide +kernel, laws_of_arises.1 a b first second⟩, laws_of_arises.2 a b a first second first⟩

end ReactiveLayout.Affine
