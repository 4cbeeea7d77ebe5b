/-! Linear optimisation over the rationals by the dictionary form of the simplex method. A dictionary writes some
variables, all non-negative, as affine functions of the others, which are zero in its basic solution. A step lets
the first variable that lowers the cost enter and the first that blocks it leave, so no dictionary ever comes back. -/
namespace ReactiveLayout.Simplex

/-- A cost in two ranks. The first decides, the second only between equal firsts. -/
structure Cost where
  first : Rat
  second : Rat
deriving Repr, DecidableEq

namespace Cost

def zero : Cost := ⟨0, 0⟩

def addMultiple (a : Cost) (factor : Rat) (b : Cost) : Cost :=
  if factor = 0 then a else ⟨a.first + factor * b.first, a.second + factor * b.second⟩

def isNegative (a : Cost) : Bool := decide (a.first < 0) || (decide (a.first = 0) && decide (a.second < 0))

end Cost

structure Row where
  basic : Nat
  constant : Rat
  coefficients : List Rat
deriving Repr

/-- A dictionary, with the price of each column: the cost of one unit of its variable. -/
structure Dictionary where
  columns : List Nat
  rows : List Row
  prices : List Cost
deriving Repr

namespace Dictionary

/-- The column of negative price whose variable comes first, as its position. -/
def entering? (d : Dictionary) : Option Nat :=
  let candidates := (d.columns.zip d.prices).zipIdx.filter fun c => c.1.2.isNegative
  (candidates.foldl (fun best c =>
    match best with
    | some (least, position) => if c.1.1 < least then some (c.1.1, c.2) else some (least, position)
    | none => some (c.1.1, c.2)) (none : Option (Nat × Nat))).map (·.2)

/-- The row that bounds the variable of a column most closely; of several, the one whose variable comes first. -/
def leaving? (d : Dictionary) (column : Nat) : Option Row :=
  (d.rows.foldl (fun best row =>
    let coefficient := row.coefficients.getD column 0
    if 0 ≤ coefficient then best
    else
      let bound := row.constant / -coefficient
      match best with
      | some (least, other) =>
        if bound < least ∨ (bound = least ∧ row.basic < other.basic) then some (bound, row) else some (least, other)
      | none => some (bound, row)) (none : Option (Rat × Row))).map (·.2)

def solve (row : Row) (column : Nat) (entrant : Nat) : Row :=
  let pivot := row.coefficients.getD column 1
  { basic := entrant
    constant := -row.constant / pivot
    coefficients := (row.coefficients.map fun c => -c / pivot).set column (1 / pivot) }

/-- Replaces the variable of a column in a function of the columns by its row. What does not depend on the variable
stays as it is. -/
def substitute (solved : Row) (column : Nat) (coefficients : List Rat) : List Rat :=
  let factor := coefficients.getD column 0
  if factor = 0 then coefficients
  else
    List.zipWith (fun c s => if s = 0 then c else c + factor * s) (coefficients.set column 0) solved.coefficients

def pivot (d : Dictionary) (column : Nat) (row : Row) : Dictionary :=
  let solved := solve row column (d.columns.getD column 0)
  let price := d.prices.getD column .zero
  { columns := d.columns.set column row.basic
    rows := d.rows.map fun other =>
      if other.basic = row.basic then solved
      else
        { basic := other.basic
          constant := other.constant + other.coefficients.getD column 0 * solved.constant
          coefficients := substitute solved column other.coefficients }
    prices := List.zipWith (fun p s => p.addMultiple s price) (d.prices.set column .zero) solved.coefficients }

/-- At most `steps` exchanges, fewer when no column has a negative price. -/
def improve : Nat → Dictionary → Dictionary
  | 0, d => d
  | steps + 1, d =>
    match d.entering? with
    | none => d
    | some column =>
      match d.leaving? column with
      | none => d
      | some row => improve steps (d.pivot column row)

/-- An optimal dictionary. No dictionary comes back and each is a choice of basic variables, so there are fewer
steps than sets of variables. -/
def optimize (d : Dictionary) : Dictionary := improve (Nat.pow 2 (d.columns.length + d.rows.length)) d

/-- Whether the cost has no least value: a column has a negative price in the end, and no row bounds its variable. -/
def isUnbounded (d : Dictionary) : Bool := d.optimize.entering?.isSome

def valueOf (d : Dictionary) (number : Nat) : Rat :=
  ((d.rows.find? fun row => row.basic == number).map (·.constant)).getD 0

end Dictionary
end ReactiveLayout.Simplex
