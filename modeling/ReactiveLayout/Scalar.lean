import ReactiveLayout.Decimal.Shortest

/-! The numbers that a layout computes with. Everything in this library is written once over a scalar type: it
runs on floating-point numbers, and the same definitions at the rationals are the exact reading of the same layout. -/
namespace ReactiveLayout

/-- Arithmetic, comparison and text of numbers. No laws are asked for, since rounding breaks most of them. -/
class Scalar (K : Type) extends Zero K, One K, Add K, Sub K, Mul K, Div K, Neg K, BEq K, LT K, LE K where
  decidableLT : DecidableLT K
  decidableLE : DecidableLE K
  isFinite : K → Bool
  /-- The scalar nearest to a rational. -/
  ofRat : Rat → K
  /-- The exact value. A scalar that is not finite has none and counts as zero. -/
  toRat : K → Rat
  text : K → String

namespace Scalar
variable {K : Type} [Scalar K]

instance : DecidableLT K := decidableLT
instance : DecidableLE K := decidableLE

/-- The distance from zero. -/
def magnitude (x : K) : K := if x < 0 then -x else x

end Scalar

instance : Scalar Float where
  zero := 0.0
  one := 1.0
  decidableLT := inferInstance
  decidableLE := inferInstance
  isFinite x := (Decimal.Binary.ofFloat x).toRat?.isSome
  ofRat := Decimal.nearest
  toRat x := (Decimal.Binary.ofFloat x).toRat?.getD 0
  text := Decimal.text

instance : Scalar Rat where
  zero := 0
  one := 1
  decidableLT := inferInstance
  decidableLE := inferInstance
  isFinite _ := true
  ofRat x := x
  toRat x := x
  text x := if x.den == 1 then toString x.num else toString x.num ++ "/" ++ toString x.den

end ReactiveLayout
