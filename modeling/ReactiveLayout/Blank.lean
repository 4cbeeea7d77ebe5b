/-! Blank text: text of white space only. White space is the property of that name in Unicode 15.1, which has 25
code points. -/
namespace ReactiveLayout.Blank

/-- The code points of the property as closed ranges, ascending. -/
def ranges : List (Nat × Nat) :=
  [(0x09, 0x0D), (0x20, 0x20), (0x85, 0x85), (0xA0, 0xA0), (0x1680, 0x1680), (0x2000, 0x200A), (0x2028, 0x2029),
    (0x202F, 0x202F), (0x205F, 0x205F), (0x3000, 0x3000)]

def isSpace (c : Char) : Bool := ranges.any fun r => decide (r.1 ≤ c.toNat) && decide (c.toNat ≤ r.2)

def isBlank (text : String) : Bool := text.toList.all isSpace

end ReactiveLayout.Blank
