import ReactiveLayout.Decimal.Numeral
import ReactiveLayout.Document.Node

/-! Numbers, flags and dates of TOML. All of them are runs of letters, digits and a few signs, so a run is taken as a
whole and then told what it is. -/
namespace ReactiveLayout.Document.Toml

/-- Digits in a base, with single underscores between digits, as the number that they spell. -/
def digits? (base : Nat) : List Char → Option (List Char)
  | [] => none
  | [c] => (digit? base c).map fun _ => [c]
  | c :: '_' :: rest => do
    let _ ← digit? base c
    (digits? base rest).map (c :: ·)
  | c :: rest => do
    let _ ← digit? base c
    (digits? base rest).map (c :: ·)

def whole? (text : List Char) : Option (List Char) :=
  (digits? 10 text).filter fun digits => !(digits.head? == some '0' && decide (1 < digits.length))

def inRange (value : Int) : Bool :=
  let bound : Int := Nat.pow 2 63
  decide (-bound ≤ value) && decide (value < bound)

/-- A whole number of 64 bits: decimal with an optional sign, or in a base told by its mark without one. -/
def integer? (text : List Char) : Option Int :=
  let value := match text with
    | '0' :: 'x' :: rest => ((digits? 16 rest).bind (natural? 16)).map Int.ofNat
    | '0' :: 'o' :: rest => ((digits? 8 rest).bind (natural? 8)).map Int.ofNat
    | '0' :: 'b' :: rest => ((digits? 2 rest).bind (natural? 2)).map Int.ofNat
    | text =>
      let (negative, rest) := Decimal.splitSign text
      (whole? rest).map fun digits =>
        let n : Int := Decimal.naturalOf digits
        if negative then -n else n
  value.filter inRange

private def exponent? : List Char → Option Int
  | [] => some 0
  | mark :: rest =>
    if mark == 'e' || mark == 'E' then
      let (negative, rest) := Decimal.splitSign rest
      (digits? 10 rest).map fun digits =>
        let n : Int := Decimal.naturalOf digits
        if negative then -n else n
    else none

private def isMark (c : Char) : Bool := c == 'e' || c == 'E'

/-- A decimal number with a fraction, which has digits on both sides of its point, or an exponent, or both. One that
lies above all finite values is refused. -/
def decimal? (text : List Char) : Option Float := do
  let (negative, unsigned) := Decimal.splitSign text
  let mantissa := unsigned.takeWhile fun c => !isMark c
  let exponent ← exponent? (unsigned.dropWhile fun c => !isMark c)
  let whole ← whole? (mantissa.takeWhile (· != '.'))
  let fraction ← match mantissa.dropWhile (· != '.') with
    | [] => some []
    | _ :: rest => digits? 10 rest
  if fraction.isEmpty ∧ mantissa.length = unsigned.length then none
  let numeral : Decimal.Numeral :=
    { negative, digits := Decimal.naturalOf (whole ++ fraction), exponent := exponent - fraction.length }
  let value := numeral.toFloat
  if value == 1.0 / 0.0 then none
  pure value

def special? (text : List Char) : Option Float :=
  match Decimal.splitSign text with
  | (negative, ['i', 'n', 'f']) => some (if negative then -1.0 / 0.0 else 1.0 / 0.0)
  | (_, ['n', 'a', 'n']) => some (0.0 / 0.0)
  | _ => none

/-- A number of a fixed count of decimal digits within bounds, and the rest. -/
private def field? (count low high : Nat) (text : List Char) : Option (Nat × List Char) := do
  let digits := text.take count
  if digits.length < count then none
  let n ← natural? 10 digits
  if low ≤ n ∧ n ≤ high then some (n, text.drop count) else none

private def literal? (c : Char) (text : List Char) : Option (List Char) :=
  match text with
  | first :: rest => if first = c then some rest else none
  | [] => none

def daysOf (year month : Nat) : Nat :=
  if month = 2 then (if year % 4 = 0 ∧ (year % 100 ≠ 0 ∨ year % 400 = 0) then 29 else 28)
  else if month ∈ [4, 6, 9, 11] then 30
  else 31

def date? (text : List Char) : Option (List Char × List Char) := do
  let (year, rest) ← field? 4 0 9999 text
  let rest ← literal? '-' rest
  let (month, rest) ← field? 2 1 12 rest
  let rest ← literal? '-' rest
  let (_, rest) ← field? 2 1 (daysOf year month) rest
  pure (text.take 10, rest)

/-- A time of day such as `07:32:00.5`, and the rest. A fraction counts to the ninth digit and is written without the
zeros at its end. -/
def time? (text : List Char) : Option (List Char × List Char) := do
  let (_, rest) ← field? 2 0 23 text
  let rest ← literal? ':' rest
  let (_, rest) ← field? 2 0 59 rest
  let rest ← literal? ':' rest
  let (_, rest) ← field? 2 0 60 rest
  let second := text.take 8
  match rest with
  | '.' :: rest =>
    let digits := rest.takeWhile Char.isDigit
    let fraction := ((digits.take 9).reverse.dropWhile (· == '0')).reverse
    if digits.isEmpty then none
    else pure (if fraction.isEmpty then second else second ++ '.' :: fraction, rest.dropWhile Char.isDigit)
  | rest => pure (second, rest)

/-- The distance of a time zone from the universal time, as a whole text that may be empty. No distance is positive. -/
def offset? : List Char → Option (List Char)
  | [] => some []
  | ['Z'] | ['z'] => some ['Z']
  | sign :: text => do
    if sign != '+' && sign != '-' then none
    let (hours, rest) ← field? 2 0 23 text
    let rest ← literal? ':' rest
    let (minutes, rest) ← field? 2 0 59 rest
    if !rest.isEmpty then none
    pure ((if hours = 0 ∧ minutes = 0 then '+' else sign) :: text)

/-- The standard form of a text that is a date, a time, or both. -/
def moment? (text : List Char) : Option (List Char) :=
  match date? text with
  | some (date, []) => some date
  | some (date, delimiter :: rest) => do
    if !(delimiter ∈ ['T', 't', ' ']) then none
    let (time, rest) ← time? rest
    let offset ← offset? rest
    pure (date ++ 'T' :: time ++ offset)
  | none => do
    let (time, rest) ← time? text
    if rest.isEmpty then pure time else none

/-- The key of a date or time, which is a table of its text. -/
def momentKey : String := "$__toml_private_datetime"

def isScalarChar (c : Char) : Bool := c.isAlphanum || c == '_' || c == '+' || c == '-' || c == '.' || c == ':'

/-- A run of scalar characters. A date and a time of day may have one space between them. -/
def run (text : List Char) : List Char × List Char :=
  let first := text.takeWhile isScalarChar
  match text.dropWhile isScalarChar with
  | ' ' :: rest =>
    let second := rest.takeWhile isScalarChar
    if (date? first).any (·.2.isEmpty) && ((second.drop 2).head? == some ':') && (second.take 2).all Char.isDigit then
      (first ++ ' ' :: second, rest.dropWhile isScalarChar)
    else (first, ' ' :: rest)
  | rest => (first, rest)

def scalar? (text : List Char) : Option Node :=
  if text = ['t', 'r', 'u', 'e'] then some (.flag true)
  else if text = ['f', 'a', 'l', 's', 'e'] then some (.flag false)
  else
    match moment? text, integer? text, decimal? text, special? text with
    | some moment, _, _, _ => some (.table [(.text momentKey, .text (String.ofList moment))])
    | none, some value, _, _ => some (.integer (decide (value < 0)) value.natAbs)
    | none, none, some value, _ => some (.real value)
    | none, none, none, some value => some (.real value)
    | none, none, none, none => none

end ReactiveLayout.Document.Toml
