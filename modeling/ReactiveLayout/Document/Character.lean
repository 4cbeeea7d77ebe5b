/-! Digits in any base up to sixteen, and characters given by their code point. -/
namespace ReactiveLayout.Document

def digit? (base : Nat) (c : Char) : Option Nat :=
  let value :=
    if '0' ≤ c ∧ c ≤ '9' then some (c.toNat - '0'.toNat)
    else if 'a' ≤ c ∧ c ≤ 'f' then some (c.toNat - 'a'.toNat + 10)
    else if 'A' ≤ c ∧ c ≤ 'F' then some (c.toNat - 'A'.toNat + 10)
    else none
  value.filter fun v => decide (v < base)

def natural? (base : Nat) : List Char → Option Nat
  | [] => none
  | digits => digits.foldlM (fun n c => (digit? base c).map fun v => base * n + v) 0

/-- The character of a code point, unless that is a surrogate or out of range. -/
def character? (code : Nat) : Option Char := if code.isValidChar then some (Char.ofNat code) else none

/-- The character whose code point is written in the first `count` hexadecimal digits, and the rest. -/
def characterByCode? (count : Nat) (text : List Char) : Option (Char × List Char) := do
  let digits := text.take count
  if digits.length < count then none
  let c ← (natural? 16 digits).bind character?
  pure (c, text.drop count)

end ReactiveLayout.Document
