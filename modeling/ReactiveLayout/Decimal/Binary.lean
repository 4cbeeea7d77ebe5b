/-! Binary floating-point numbers of 64 bits as exact quantities: what a bit pattern denotes, and the pattern
nearest to a rational. Rounding is to the nearest value, a tie going to the even significand; what lies beyond the
largest finite value becomes an infinity. -/
namespace ReactiveLayout.Decimal

/-- What the bits of a number say. A finite one is `significand * 2 ^ exponent` with its sign. -/
inductive Binary where
  | nan
  | infinite (negative : Bool)
  | finite (negative : Bool) (significand : Nat) (exponent : Int)
deriving Repr, DecidableEq

/-- An integral power of a natural base, also for negative exponents. -/
def power (base : Nat) (exponent : Int) : Rat :=
  if 0 ≤ exponent then (base.pow exponent.toNat : Nat) else mkRat 1 (base.pow (-exponent).toNat)

namespace Binary

def leadingBit : Nat := Nat.pow 2 52

def signBit : Nat := Nat.pow 2 63

/-- The exponent field of numbers that are not finite; every lesser one belongs to finite numbers. -/
def topField : Nat := 2047

/-- The smallest exponent: below it the significand of a finite number loses bits. -/
def lowestExponent : Int := -1074

def ofBits (bits : UInt64) : Binary :=
  let n := bits.toNat
  let negative := n / signBit == 1
  let field : Nat := n / leadingBit % (topField + 1)
  let fraction : Nat := n % leadingBit
  if field == topField then (if fraction == 0 then .infinite negative else .nan)
  else if field == 0 then .finite negative fraction lowestExponent
  else .finite negative (leadingBit + fraction) ((field : Int) - 1075)

def ofFloat (x : Float) : Binary := ofBits x.toBits

def toRat? : Binary → Option Rat
  | .finite negative significand exponent =>
    let magnitude := significand * power 2 exponent
    some (if negative then -magnitude else magnitude)
  | _ => none

end Binary

/-- The quotient rounded to an integer, a tie going to the even one. -/
def roundHalfEven (numerator denominator : Nat) : Nat :=
  let quotient := numerator / denominator
  match compare (2 * (numerator % denominator)) denominator with
  | .lt => quotient
  | .gt => quotient + 1
  | .eq => if quotient % 2 == 0 then quotient else quotient + 1

/-- The exponent at which a quotient has a significand of 53 bits, or the lowest one. -/
private def scaleOf (numerator denominator : Nat) : Int :=
  let low : Int := (numerator.log2 : Int) - (denominator.log2 : Int) - 53
  let full := numerator * Nat.pow 2 (-low).toNat ≥ 2 * Binary.leadingBit * denominator * Nat.pow 2 low.toNat
  max (if full then low + 1 else low) Binary.lowestExponent

def infinityBits : Nat := Binary.topField * Binary.leadingBit

/-- The pattern, without a sign, of the number nearest to a quotient. A significand that rounds up to 54 bits
carries into the exponent field, which is the next number. -/
def nearestBits (numerator denominator : Nat) : Nat :=
  if numerator == 0 then 0 else
    let exponent := scaleOf numerator denominator
    let significand := roundHalfEven (numerator * Nat.pow 2 (-exponent).toNat) (denominator * Nat.pow 2 exponent.toNat)
    let bits :=
      if significand < Binary.leadingBit then significand
      else (exponent + 1075).toNat * Binary.leadingBit + (significand - Binary.leadingBit)
    min bits infinityBits

private def signed (negative : Bool) (bits : Nat) : Float :=
  Float.ofBits (UInt64.ofNat (if negative then bits + Binary.signBit else bits))

def nearest (x : Rat) : Float := signed (x.num < 0) (nearestBits x.num.natAbs x.den)

/-- The number nearest to `± digits * 10 ^ exponent`. A zero keeps its sign. -/
def ofDecimal (negative : Bool) (digits : Nat) (exponent : Int) : Float :=
  let top : Int := (Nat.toDigits 10 digits).length + exponent
  if digits == 0 ∨ top < -400 then signed negative 0
  else if top > 400 then signed negative infinityBits
  else signed negative (nearestBits (digits * Nat.pow 10 exponent.toNat) (Nat.pow 10 (-exponent).toNat))

end ReactiveLayout.Decimal
