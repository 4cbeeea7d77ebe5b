import ReactiveLayout.Scalar
import ReactiveLayout.Token

/-! Affine expressions `c₁·q₁ + … + cₙ·qₙ + c` over numbered quantities. The terms stand by increasing quantity, and
no stored coefficient equals zero, whatever the scalars are: every operation below drops a coefficient that has
become zero, so an expression is constant exactly when it has no term. -/
namespace ReactiveLayout

/-- The number of a quantity: its position in the table of quantities. -/
abbrev QuantityId := Nat

def quantityText (id : QuantityId) : String := "q" ++ toString id

structure Affine (K : Type) where
  terms : List (QuantityId × K)
  offset : K
deriving DecidableEq

namespace Affine
variable {K : Type} [Scalar K]

instance : BEq (Affine K) := ⟨fun a b => a.terms == b.terms && a.offset == b.offset⟩

def constant (value : K) : Affine K := ⟨[], value⟩

/-- Adds `coefficient` times one quantity to a list of terms, keeping its order. -/
def addTerm (id : QuantityId) (coefficient : K) : List (QuantityId × K) → List (QuantityId × K)
  | [] => if (0 + coefficient == 0) then [] else [(id, 0 + coefficient)]
  | (other, c) :: rest =>
    if id < other then
      if (0 + coefficient == 0) then (other, c) :: rest else (id, 0 + coefficient) :: (other, c) :: rest
    else if id = other then
      if (c + coefficient == 0) then rest else (other, c + coefficient) :: rest
    else (other, c) :: addTerm id coefficient rest

def term (id : QuantityId) (coefficient : K) : Affine K := ⟨addTerm id coefficient [], 0⟩

def quantity (id : QuantityId) : Affine K := term id 1

def isConstant (e : Affine K) : Bool := e.terms.isEmpty

/-- The coefficient of a quantity, 0 if it has no term. -/
def coefficient (e : Affine K) (id : QuantityId) : K := (e.terms.lookup id).getD 0

def quantities (e : Affine K) : List QuantityId := e.terms.map (·.1)

def plus (a b : Affine K) : Affine K :=
  ⟨b.terms.foldl (fun terms t => addTerm t.1 t.2 terms) a.terms, a.offset + b.offset⟩

/-- Multiplies by a number. A coefficient that underflows to zero is dropped. -/
def scale (e : Affine K) (factor : K) : Affine K :=
  ⟨(e.terms.map fun t => (t.1, t.2 * factor)).filter fun t => !(t.2 == 0), e.offset * factor⟩

def neg (e : Affine K) : Affine K := e.scale (-1)

def minus (a b : Affine K) : Affine K := a.plus b.neg

/-- The value at given values of the quantities, summed from the offset on in the order of the terms. -/
def evaluate (e : Affine K) (value : QuantityId → K) : K :=
  e.terms.foldl (fun sum t => sum + t.2 * value t.1) e.offset

/-- The text of an expression. The offset is left out behind terms when it equals zero. -/
def text (e : Affine K) : String :=
  let terms := e.terms.map fun t => Scalar.text t.2 ++ "*" ++ quantityText t.1
  let offset := if e.isConstant || !(e.offset == 0) then [Scalar.text e.offset] else []
  String.intercalate " + " (terms ++ offset)

/-- Why an arithmetic operation leaves the affine expressions. -/
inductive Nonlinear (K : Type) where
  | product (a b : Affine K)
  | quotient (a b : Affine K)
  | zeroDivisor (a : Affine K)
  | overflow (a : Affine K) (divisor : K)
deriving DecidableEq

def Nonlinear.reason : Nonlinear K → String
  | product a b => "cannot multiply " ++ a.text ++ " by " ++ b.text
  | quotient a b => "cannot divide " ++ a.text ++ " by " ++ b.text
  | zeroDivisor a => "division of " ++ a.text ++ " by zero"
  | overflow a divisor => "division of " ++ a.text ++ " by " ++ Scalar.text divisor ++ " overflows"

/-- The product, if one factor is constant. -/
def times (a b : Affine K) : Except (Nonlinear K) (Affine K) :=
  if b.isConstant then .ok (a.scale b.offset)
  else if a.isConstant then .ok (b.scale a.offset)
  else .error (.product a b)

/-- The quotient by a constant other than zero, taken as the product with its reciprocal, which must be finite. -/
def divide (a b : Affine K) : Except (Nonlinear K) (Affine K) :=
  if !b.isConstant then .error (.quotient a b)
  else if b.offset == 0 then .error (.zeroDivisor a)
  else
    let factor := 1 / b.offset
    if Scalar.isFinite factor then .ok (a.scale factor) else .error (.overflow a b.offset)

def apply (op : Operator) (a b : Affine K) : Except (Nonlinear K) (Affine K) :=
  match op with
  | .add => .ok (a.plus b)
  | .subtract => .ok (a.minus b)
  | .multiply => a.times b
  | .divide => a.divide b

end Affine
end ReactiveLayout
