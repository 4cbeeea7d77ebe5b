import ReactiveLayout.Decimal.Binary

/-! Decimal numerals: an optional sign, digits with at most one point among or around them, and an optional
exponent. At least one digit is needed, on either side of the point. -/
namespace ReactiveLayout.Decimal

/-- The numeral `± digits * 10 ^ exponent`. -/
structure Numeral where
  negative : Bool
  digits : Nat
  exponent : Int
deriving Repr, DecidableEq

/-- The natural number that a list of characters spells; every character counts as a decimal digit. -/
def naturalOf (digits : List Char) : Nat := digits.foldl (fun n c => 10 * n + (c.toNat - '0'.toNat)) 0

def splitSign : List Char → Bool × List Char
  | '-' :: rest => (true, rest)
  | '+' :: rest => (false, rest)
  | rest => (false, rest)

/-- The exponent behind the mantissa: nothing, or a mark followed by an optional sign and digits. -/
private def exponentOf? : List Char → Option Int
  | [] => some 0
  | mark :: rest =>
    let (negative, digits) := splitSign rest
    if (mark == 'e' || mark == 'E') && !digits.isEmpty && digits.all Char.isDigit then
      some (if negative then -(naturalOf digits : Int) else naturalOf digits)
    else none

def Numeral.read? (text : List Char) : Option Numeral :=
  let (negative, rest) := splitSign text
  let whole := rest.takeWhile Char.isDigit
  let (fraction, tail) := match rest.dropWhile Char.isDigit with
    | '.' :: behind => (behind.takeWhile Char.isDigit, behind.dropWhile Char.isDigit)
    | behind => ([], behind)
  if whole.isEmpty && fraction.isEmpty then none
  else (exponentOf? tail).map fun exponent =>
    { negative, digits := naturalOf (whole ++ fraction), exponent := exponent - fraction.length }

def Numeral.toFloat (n : Numeral) : Float := ofDecimal n.negative n.digits n.exponent

end ReactiveLayout.Decimal
