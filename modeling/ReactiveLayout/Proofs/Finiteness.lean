import Mathlib
import ReactiveLayout.Affine

/-! Finite numbers in arithmetic, read backwards. A sum or a product is finite only if its operands are, so an expression
with finite numbers was made of such alone. Division is the exception: a divisor outside the finite numbers has a
reciprocal of zero. -/
namespace ReactiveLayout
open Float.Model

namespace Scalar

theorem unpackExponent_toNat (bits : UInt64) :
    (@UnpackedFloat.unpackExponent Format.binary64 bits.toBitVec).toNat =
      bits.toNat / Decimal.Binary.leadingBit % (Decimal.Binary.topField + 1) := by
  simp only [UnpackedFloat.unpackExponent, BitVec.toNat_cast, BitVec.extractLsb_toNat, UInt64.toNat_toBitVec,
    Nat.shiftRight_eq_div_pow]
  rfl

theorem isFinite_float (x : Float) : isFinite x = x.toModel.unpack.isFinite := by
  have field := unpackExponent_toNat x.toBits
  change (Decimal.Binary.ofBits x.toBits).toRat?.isSome =
    (UnpackedFloat.unpack Format.binary64 x.toBits.toBitVec).isFinite
  by_cases top : @UnpackedFloat.unpackExponent Format.binary64 x.toBits.toBitVec = -1#_
  · have all :
        x.toBits.toNat / Decimal.Binary.leadingBit % (Decimal.Binary.topField + 1) = Decimal.Binary.topField := by
      rw [← field, top]
      rfl
    simp only [UnpackedFloat.unpack, if_pos top, Decimal.Binary.ofBits, all, BEq.rfl, if_true]
    split <;> split <;> rfl
  · have notAll :
        x.toBits.toNat / Decimal.Binary.leadingBit % (Decimal.Binary.topField + 1) ≠ Decimal.Binary.topField := by
      intro all
      exact top (BitVec.eq_of_toNat_eq (field.trans all))
    simp only [UnpackedFloat.unpack, if_neg top, Decimal.Binary.ofBits, beq_eq_false_iff_ne.mpr notAll,
      Bool.false_eq_true, if_false]
    split <;> split <;> (try split) <;> rfl

/-- Rounding into the format can leave the finite numbers, but not reach them. -/
theorem isFinite_of_pack {x : UnpackedFloat} (finite : (pack x).unpack.isFinite = true) : x.isFinite = true := by
  cases x with
  | infinity sign => cases sign <;> cases finite
  | notANumber => cases finite
  | zero | finite => rfl

theorem isFinite_pack_zero (sign : UnpackedFloat.Sign) : (pack (.zero sign)).unpack.isFinite = true := by
  cases sign <;> rfl

theorem isFinite_of_add {x y : Float} (finite : isFinite (x + y) = true) : isFinite x = true ∧ isFinite y = true := by
  rw [isFinite_float] at finite ⊢
  rw [isFinite_float]
  have unrounded : (UnpackedFloat.add Format.binary64 x.toModel.unpack y.toModel.unpack).isFinite = true :=
    isFinite_of_pack finite
  revert unrounded
  cases x.toModel.unpack <;> cases y.toModel.unpack <;> simp only [UnpackedFloat.add] <;> (try split_ifs) <;>
    simp [UnpackedFloat.isFinite]

theorem isFinite_of_mul {x y : Float} (finite : isFinite (x * y) = true) : isFinite x = true ∧ isFinite y = true := by
  rw [isFinite_float] at finite ⊢
  rw [isFinite_float]
  have unrounded : (UnpackedFloat.mul Format.binary64 x.toModel.unpack y.toModel.unpack).isFinite = true :=
    isFinite_of_pack finite
  revert unrounded
  cases x.toModel.unpack <;> cases y.toModel.unpack <;> simp [UnpackedFloat.mul, UnpackedFloat.isFinite]

theorem isFinite_of_beq_zero {x : Float} (zero : (x == 0) = true) : isFinite x = true := by
  rw [isFinite_float]
  change (x.toModel.unpack.compare (.zero .positive) == some .eq) = true at zero
  revert zero
  cases x.toModel.unpack with
  | notANumber => exact fun zero => nomatch zero
  | infinity sign => cases sign <;> exact fun zero => nomatch zero
  | zero | finite => exact fun _ => rfl

/-- The reciprocal of a number that is not finite is zero if it is a number at all. -/
theorem isFinite_mul_reciprocal {x y : Float} (infinite : isFinite x = false) (reciprocal : isFinite (1 / x) = true)
    (finite : isFinite y = true) : isFinite (y * (1 / x)) = true := by
  rw [isFinite_float] at *
  have zero : ∃ sign, (1 / x).toModel.unpack = .zero sign := by
    change (pack (UnpackedFloat.div Format.binary64 (1 : Float).toModel.unpack x.toModel.unpack)).unpack.isFinite = true
      at reciprocal
    change ∃ sign, (pack (UnpackedFloat.div Format.binary64 (1 : Float).toModel.unpack x.toModel.unpack)).unpack = _
    revert infinite reciprocal
    cases x.toModel.unpack with
    | notANumber => exact fun _ reciprocal => nomatch reciprocal
    | infinity sign => cases sign <;> exact fun _ _ => ⟨_, rfl⟩
    | zero | finite => exact fun infinite => nomatch infinite
  obtain ⟨sign, zero⟩ := zero
  change (pack (UnpackedFloat.mul Format.binary64 y.toModel.unpack (1 / x).toModel.unpack)).unpack.isFinite = true
  rw [zero]
  revert finite
  cases y.toModel.unpack with
  | notANumber | infinity => exact fun finite => nomatch finite
  | zero other | finite other => exact fun _ => isFinite_pack_zero (other * sign)

end Scalar

namespace Affine

structure IsFinite {K : Type} [Scalar K] (e : Affine K) : Prop where
  offset : Scalar.isFinite e.offset = true
  terms : ∀ t ∈ e.terms, Scalar.isFinite t.2 = true

variable {a b e : Affine Float}

theorem isFinite_of_isConstant (isConstant : e.isConstant = true) (offset : Scalar.isFinite e.offset = true) :
    e.IsFinite where
  offset := offset
  terms := fun t member => by
    rw [List.isEmpty_iff.mp isConstant] at member
    cases member

/-- A coefficient that is added is not lost: it stays, changes by a finite number, or makes a zero. -/
theorem isFinite_of_addTerm {id : QuantityId} {coefficient : Float} {terms : List (QuantityId × Float)}
    (finite : ∀ t ∈ addTerm id coefficient terms, Scalar.isFinite t.2 = true) :
    Scalar.isFinite coefficient = true ∧ ∀ t ∈ terms, Scalar.isFinite t.2 = true := by
  fun_induction addTerm id coefficient terms with
  | case1 zero => exact ⟨(Scalar.isFinite_of_add (Scalar.isFinite_of_beq_zero zero)).2, fun _ member => nomatch member⟩
  | case2 nonzero =>
    have sum := finite _ List.mem_cons_self
    exact ⟨(Scalar.isFinite_of_add sum).2, fun _ member => nomatch member⟩
  | case3 other c rest before zero => exact ⟨(Scalar.isFinite_of_add (Scalar.isFinite_of_beq_zero zero)).2, finite⟩
  | case4 other c rest before nonzero =>
    obtain ⟨sum, others⟩ := List.forall_mem_cons.mp finite
    exact ⟨(Scalar.isFinite_of_add sum).2, others⟩
  | case5 c rest zero =>
    have sum := Scalar.isFinite_of_add (Scalar.isFinite_of_beq_zero zero)
    exact ⟨sum.2, List.forall_mem_cons.mpr ⟨sum.1, finite⟩⟩
  | case6 c rest nonzero =>
    obtain ⟨sum, others⟩ := List.forall_mem_cons.mp finite
    have sum := Scalar.isFinite_of_add sum
    exact ⟨sum.2, List.forall_mem_cons.mpr ⟨sum.1, others⟩⟩
  | case7 other c rest before behind ih =>
    obtain ⟨first, others⟩ := List.forall_mem_cons.mp finite
    obtain ⟨added, kept⟩ := ih others
    exact ⟨added, List.forall_mem_cons.mpr ⟨first, kept⟩⟩

theorem isFinite_of_plus (finite : (a.plus b).IsFinite) : a.IsFinite ∧ b.IsFinite := by
  have folded (terms added : List (QuantityId × Float))
      (all : ∀ t ∈ added.foldl (fun terms t => addTerm t.1 t.2 terms) terms, Scalar.isFinite t.2 = true) :
      (∀ t ∈ terms, Scalar.isFinite t.2 = true) ∧ ∀ t ∈ added, Scalar.isFinite t.2 = true := by
    induction added generalizing terms with
    | nil => exact ⟨all, fun _ member => nomatch member⟩
    | cons t rest ih =>
      obtain ⟨after, later⟩ := ih _ all
      obtain ⟨here, before⟩ := isFinite_of_addTerm after
      exact ⟨before, List.forall_mem_cons.mpr ⟨here, later⟩⟩
  obtain ⟨left, right⟩ := Scalar.isFinite_of_add finite.offset
  obtain ⟨first, second⟩ := folded _ _ finite.terms
  exact ⟨⟨left, first⟩, ⟨right, second⟩⟩

theorem isFinite_of_scale {factor : Float} (finite : (e.scale factor).IsFinite) :
    e.IsFinite ∧ Scalar.isFinite factor = true := by
  obtain ⟨offset, factorFinite⟩ := Scalar.isFinite_of_mul finite.offset
  refine ⟨⟨offset, fun t member => ?_⟩, factorFinite⟩
  have product : Scalar.isFinite (t.2 * factor) = true := by
    by_cases zero : (t.2 * factor == 0) = true
    · exact Scalar.isFinite_of_beq_zero zero
    · refine finite.terms (t.1, t.2 * factor) (List.mem_filter.mpr ⟨List.mem_map_of_mem member, ?_⟩)
      exact (Bool.not_eq_true' _).mpr (Bool.eq_false_iff.mpr zero)
  exact (Scalar.isFinite_of_mul product).1

/-- An operation never leads back to the finite numbers, but for a divisor. -/
theorem isFinite_of_apply {op : Operator} (applied : a.apply op b = .ok e) (finite : e.IsFinite) :
    a.IsFinite ∧ (op ≠ .divide → b.IsFinite) := by
  cases op with
  | add =>
    cases applied
    exact ⟨(isFinite_of_plus finite).1, fun _ => (isFinite_of_plus finite).2⟩
  | subtract =>
    cases applied
    obtain ⟨left, right⟩ := isFinite_of_plus finite
    exact ⟨left, fun _ => (isFinite_of_scale right).1⟩
  | multiply =>
    simp only [apply, times] at applied
    split at applied
    · rename_i isConstant
      cases applied
      obtain ⟨left, factor⟩ := isFinite_of_scale finite
      exact ⟨left, fun _ => isFinite_of_isConstant isConstant factor⟩
    · split at applied
      · rename_i isConstant
        cases applied
        obtain ⟨right, factor⟩ := isFinite_of_scale finite
        exact ⟨isFinite_of_isConstant isConstant factor, fun _ => right⟩
      · cases applied
  | divide =>
    refine ⟨?_, fun other => absurd rfl other⟩
    simp only [apply, divide] at applied
    split_ifs at applied
    cases applied
    exact (isFinite_of_scale finite).1

/-- A divisor outside the finite numbers divides to zero. -/
theorem isFinite_divide (finite : a.IsFinite) (infinite : ¬ b.IsFinite) (divided : a.divide b = .ok e) :
    e.IsFinite := by
  simp only [divide] at divided
  split_ifs at divided with nonconstant zero reciprocal
  cases divided
  have isConstant : b.isConstant = true := by simpa using nonconstant
  have offset : Scalar.isFinite b.offset = false :=
    Bool.eq_false_iff.mpr fun offset => infinite (isFinite_of_isConstant isConstant offset)
  refine ⟨Scalar.isFinite_mul_reciprocal offset reciprocal finite.offset, fun t member => ?_⟩
  obtain ⟨source, stored, rfl⟩ := List.mem_map.mp (List.mem_of_mem_filter member)
  exact Scalar.isFinite_mul_reciprocal offset reciprocal (finite.terms source stored)

theorem isFinite_quantity (id : QuantityId) : (quantity id : Affine Float).IsFinite := by
  have offset : Scalar.isFinite (0 : Float) = true := by decide +kernel
  have one : Scalar.isFinite (0 + 1 : Float) = true := by decide +kernel
  have nonzero : ¬ (0 + 1 == (0 : Float)) = true := by decide +kernel
  have terms : (quantity id : Affine Float).terms = [(id, 0 + 1)] := by
    unfold quantity term addTerm
    exact if_neg nonzero
  refine ⟨offset, fun t member => ?_⟩
  rw [terms] at member
  obtain rfl := List.mem_singleton.mp member
  exact one

end Affine
end ReactiveLayout
