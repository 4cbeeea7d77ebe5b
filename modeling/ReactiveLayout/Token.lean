/-! The fixed words of the formula and rule language. A string is read as a token first and as the name of a
quantity or formula only if it is none, so a quantity called `weak` can never be mentioned by its name. -/
namespace ReactiveLayout

/-- Arithmetic inside a formula. -/
inductive Operator where
  | add
  | subtract
  | multiply
  | divide
deriving Repr, DecidableEq

/-- How a rule relates its two sides. -/
inductive Comparator where
  | lessOrEqual
  | greaterOrEqual
  | equal
deriving Repr, DecidableEq

/-- Comparisons without equality. They have no optimum, so no rule may use them. -/
inductive StrictComparator where
  | less
  | greater
deriving Repr, DecidableEq

/-- How firmly a rule or a suggestion is held, from the weakest to the one that may not be violated. -/
inductive Strength where
  | weak
  | medium
  | strong
  | required
deriving Repr, DecidableEq

inductive Token where
  | operator (op : Operator)
  | comparator (comparator : Comparator)
  | strict (comparator : StrictComparator)
  | strength (strength : Strength)
deriving Repr, DecidableEq

def Operator.symbol : Operator → String
  | add => "+"
  | subtract => "-"
  | multiply => "*"
  | divide => "/"

def Comparator.symbol : Comparator → String
  | lessOrEqual => "<="
  | greaterOrEqual => ">="
  | equal => "="

def StrictComparator.symbol : StrictComparator → String
  | less => "<"
  | greater => ">"

namespace Strength

def name : Strength → String
  | weak => "weak"
  | medium => "medium"
  | strong => "strong"
  | required => "required"

instance : Inhabited Strength := ⟨medium⟩

def rank : Strength → Nat
  | weak => 0
  | medium => 1
  | strong => 2
  | required => 3

instance : LE Strength := ⟨fun a b => a.rank ≤ b.rank⟩
instance : DecidableLE Strength := fun a b => inferInstanceAs (Decidable (a.rank ≤ b.rank))

/-- The strength of that name, in lower case exactly. -/
def ofName? : String → Option Strength
  | "weak" => some weak
  | "medium" => some medium
  | "strong" => some strong
  | "required" => some required
  | _ => none

end Strength

namespace Token

def symbol : Token → String
  | operator op => op.symbol
  | comparator c => c.symbol
  | strict c => c.symbol
  | strength s => s.name

/-- The token that a string spells, if it spells one. -/
def parse? : String → Option Token
  | "+" => some (operator .add)
  | "-" => some (operator .subtract)
  | "*" => some (operator .multiply)
  | "/" => some (operator .divide)
  | "<=" => some (comparator .lessOrEqual)
  | ">=" => some (comparator .greaterOrEqual)
  | "=" => some (comparator .equal)
  | "<" => some (strict .less)
  | ">" => some (strict .greater)
  | text => (Strength.ofName? text).map strength

end Token
end ReactiveLayout
