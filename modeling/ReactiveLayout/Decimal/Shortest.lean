import ReactiveLayout.Decimal.Binary

/-! The text of a number: the fewest decimal digits that read back to it, written positionally. On each decimal
grid, from one significant digit to seventeen, only the two neighbours of the value are tried; the first grid with
a neighbour inside the rounding interval wins, of two the closer, and of two equally close ones the larger. -/
namespace ReactiveLayout.Decimal

/-- The reals that round to one number; the ends belong to it when its significand is even. -/
structure Interval where
  lower : Rat
  upper : Rat
  closed : Bool

/-- The gap below the least significand of 53 bits is half the gap above it, unless the exponent is the lowest. -/
def Interval.around (significand : Nat) (exponent : Int) : Interval :=
  let quarter := power 2 (exponent - 2)
  let narrow := significand == Binary.leadingBit && decide (Binary.lowestExponent < exponent)
  { lower := ((4 * significand : Nat) - (if narrow then 1 else 2)) * quarter
    upper := ((4 * significand : Nat) + 2) * quarter
    closed := significand % 2 == 0 }

def Interval.contains (i : Interval) (x : Rat) : Bool :=
  if i.closed then i.lower ≤ x && x ≤ i.upper else i.lower < x && x < i.upper

private def digitCount (n : Nat) : Nat := (Nat.toDigits 10 n).length

/-- The least `k` with `x < 10 ^ k`, for a positive `x`. -/
def magnitude (x : Rat) : Int :=
  if 1 ≤ x then digitCount x.floor.toNat else 1 - (digitCount ((1 / x).ceil.toNat - 1) : Int)

/-- The neighbour of `x` on the grid of step `10 ^ exponent` that lies in the interval, as a multiple of the step. -/
def neighbour? (i : Interval) (x : Rat) (exponent : Int) : Option Nat :=
  let step := power 10 exponent
  let below := (x / step).floor.toNat
  let lower := (below : Rat) * step
  let upper := ((below + 1 : Nat) : Rat) * step
  match i.contains lower, i.contains upper with
  | true, true => some (if x - lower < upper - x then below else below + 1)
  | true, false => some below
  | false, true => some (below + 1)
  | false, false => none

/-- Digits and decimal exponent of the shortest decimal in the interval of a positive number. Seventeen digits
always suffice; should no grid answer, the digits are those of the exact value at that precision. -/
def shortest (significand : Nat) (exponent : Int) : Nat × Int :=
  let x := significand * power 2 exponent
  let i := Interval.around significand exponent
  let top := magnitude x
  let tried := (List.range 17).findSome? fun (n : Nat) =>
    let scale := top - (n + 1 : Nat)
    (neighbour? i x scale).map fun digits => (digits, scale)
  tried.getD ((x / power 10 (top - 17)).floor.toNat, top - 17)

private def dropTrailingZeros (digits : List Char) : List Char := (digits.reverse.dropWhile (· == '0')).reverse

/-- Writes `digits * 10 ^ exponent` without an exponent and without zeros behind the last digit of a fraction. -/
def positional (digits : Nat) (exponent : Int) : List Char :=
  let written := Nat.toDigits 10 digits
  if 0 ≤ exponent then (if digits == 0 then ['0'] else written ++ List.replicate exponent.toNat '0')
  else
    let places := (-exponent).toNat
    let padded := List.replicate (places + 1 - written.length) '0' ++ written
    let whole := padded.take (padded.length - places)
    match dropTrailingZeros (padded.drop (padded.length - places)) with
    | [] => whole
    | fraction => whole ++ '.' :: fraction

def Binary.text : Binary → String
  | .nan => "NaN"
  | .infinite negative => if negative then "-inf" else "inf"
  | .finite negative significand exponent =>
    let written := if significand == 0 then ['0'] else
      let (digits, scale) := shortest significand exponent
      positional digits scale
    String.ofList (if negative then '-' :: written else written)

def text (x : Float) : String := (Binary.ofFloat x).text

end ReactiveLayout.Decimal
