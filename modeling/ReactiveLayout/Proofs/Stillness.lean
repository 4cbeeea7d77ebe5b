import Mathlib
import ReactiveLayout.Scheduler

/-! Whether a value has moved from itself. The difference of a floating-point number and itself is zero or not a number,
and neither is beyond any tolerance; so a value counts as moved from itself only if it is not a number and no tolerance
is set. -/
namespace ReactiveLayout
open Float.Model

namespace Scalar

theorem float_sub_self (x : Float) : x - x = 0 ∨ x - x = 0 / 0 := by
  change Float.ofModel (pack (UnpackedFloat.sub Format.binary64 x.toModel.unpack x.toModel.unpack)) = _ ∨
    Float.ofModel (pack (UnpackedFloat.sub Format.binary64 x.toModel.unpack x.toModel.unpack)) = _
  cases x.toModel.unpack with
  | notANumber => exact .inr rfl
  | infinity sign => cases sign <;> exact .inr rfl
  | zero sign => cases sign <;> exact .inl rfl
  | finite sign mantissa exponent positive =>
    -- Both mantissas are brought to one exponent, and there they cancel.
    simp only [UnpackedFloat.sub, Int.sub_self, UnpackedFloat.normalize]
    exact .inl rfl

theorem float_lt_iff {x y : Float} : x < y ↔ x.toModel.unpack.compare y.toModel.unpack = some .lt := by
  have unfolded : x < y ↔ (x.toModel.unpack.compare y.toModel.unpack == some .lt) = true := decide_eq_true_iff
  rw [unfolded, beq_iff_eq]

theorem float_not_neg {x : Float} (positive : 0 < x) : ¬ x < 0 := by
  have zero : (0 : Float).toModel.unpack = .zero .positive := rfl
  rw [float_lt_iff, zero] at positive ⊢
  cases unpacked : x.toModel.unpack with
  | notANumber | zero => simp [UnpackedFloat.compare]
  | infinity sign | finite sign => cases sign <;> simp_all [UnpackedFloat.compare]

/-- A positive number is never below the distance of a number and itself. -/
theorem not_lt_magnitude_self {x : Float} (positive : 0 < x) (y : Float) : ¬ x < magnitude (y - y) := by
  rcases float_sub_self y with zero | nan
  · rw [zero]
    exact float_not_neg positive
  · have unpacked : (magnitude (0 / 0 : Float)).toModel.unpack = .notANumber := rfl
    rw [nan, float_lt_iff, unpacked]
    cases x.toModel.unpack <;> simp [UnpackedFloat.compare]

theorem float_beq_self (x : Float) : (x == x) = !x.isNaN := by
  change (x.toModel.unpack.compare x.toModel.unpack == some .eq) = !x.toModel.unpack.isNaN
  cases x.toModel.unpack with
  | notANumber => rfl
  | infinity sign => cases sign <;> rfl
  | zero sign => rfl
  | finite sign mantissa exponent positive => cases sign <;> simp [UnpackedFloat.compare, UnpackedFloat.isNaN]

/-- There is one bit pattern for all that is not a number. -/
theorem float_eq_of_isNaN {x : Float} (nan : x.isNaN = true) : x = 0 / 0 := by
  obtain ⟨bits, valid⟩ := x
  have unpacked : (UnpackedFloat.unpack Format.binary64 bits.toBitVec).isNaN = true := nan
  have pattern : bits.toBitVec = UnpackedFloat.packedNaN Format.binary64 := by
    unfold UnpackedFloat.unpack at unpacked
    dsimp only at unpacked
    split at unpacked
    · rename_i top
      split at unpacked
      · cases unpacked
      · rename_i fraction
        exact valid.eq_packedNaN top fraction
    · split at unpacked
      · split at unpacked <;> cases unpacked
      · cases unpacked
  have same : bits = (0 / 0 : Float).toModel.toBits := UInt64.toBitVec_inj.mp pattern
  subst same
  rfl

theorem not_isNaN_of_isFinite {x : Float} (finite : isFinite x = true) : x.isNaN = false := by
  cases nan : x.isNaN with
  | false => rfl
  | true =>
    rw [float_eq_of_isNaN nan] at finite
    exact absurd finite (by decide +kernel)

end Scalar

namespace Loop

/-- A value that does not count as moved from itself. -/
def Rests {K : Type} [Scalar K] (tolerance value : K) : Prop := moved tolerance value value = false

theorem rests_iff_float {tolerance value : Float} : Rests tolerance value ↔ 0 < tolerance ∨ value.isNaN = false := by
  by_cases tolerates : 0 < tolerance
  · have near : ¬ tolerance < Scalar.magnitude (value - value) := Scalar.not_lt_magnitude_self tolerates value
    refine iff_of_true ?_ (.inl tolerates)
    exact (if_pos tolerates).trans (decide_eq_false near)
  · have compared : moved tolerance value value = !(value == value) := if_neg tolerates
    rw [or_iff_right tolerates, Rests, compared, Scalar.float_beq_self, Bool.not_not]

theorem rests_of_isFinite (tolerance : Float) {value : Float} (finite : Scalar.isFinite value = true) :
    Rests tolerance value :=
  rests_iff_float.mpr (.inr (Scalar.not_isNaN_of_isFinite finite))

end Loop
end ReactiveLayout
