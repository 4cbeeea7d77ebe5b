import ReactiveLayout.Affine
import ReactiveLayout.Producer

/-! The terms of a specification: what a quantity, a formula or an element of a rule is declared as. -/
namespace ReactiveLayout

/-- A value that needs no compilation any more. -/
inductive Primitive (K : Type) where
  | quantity (id : QuantityId)
  | expression (e : Affine K)
  | strength (strength : Strength)

inductive Term (K : Type) where
  | number (value : K)
  /-- A quantity written as a record of its value. -/
  | descriptor (value : K)
  /-- The name of a quantity, a formula or an expression that exists already. -/
  | reference (name : String)
  | token (token : Token)
  | producer (source : Producer K)
  | array (elements : List (Term K))
  | built (primitive : Primitive K)

namespace Term
variable {K : Type} [Scalar K]

/-- A string is a token if it spells one, and a reference otherwise. -/
def ofText (text : String) : Term K :=
  match Token.parse? text with
  | some t => .token t
  | none => .reference text

def describePrimitive : Primitive K → String
  | .quantity id => "<quantity " ++ quantityText id ++ ">"
  | .expression e => "<expression " ++ e.text ++ ">"
  | .strength s => "<strength " ++ s.name ++ ">"

mutual

def describe : Term K → String
  | .number value => Scalar.text value
  | .descriptor value => "\x7b value: " ++ Scalar.text value ++ " \x7d"
  | .reference name => "'" ++ name ++ "'"
  | .token t => "'" ++ t.symbol ++ "'"
  | .producer _ => "<producer>"
  | .array elements => "[" ++ String.intercalate ", " (describeEach elements) ++ "]"
  | .built primitive => describePrimitive primitive

def describeEach : List (Term K) → List String
  | [] => []
  | t :: rest => describe t :: describeEach rest

end

def describeAll (terms : List (Term K)) : String := "[" ++ String.intercalate ", " (describeEach terms) ++ "]"

/-- True of the terms that can only become a quantity. -/
def quantityShaped : Term K → Bool
  | .number _ | .descriptor _ | .producer _ => true
  | _ => false

inductive Kind (K : Type) where
  | built (primitive : Primitive K)
  | literal (value : K)
  | descriptor (value : K)
  | producer (source : Producer K)
  | array (elements : List (Term K))
  | token (token : Token)
  | reference (name : String)

/-- The kind of a term. A number or descriptor that is not finite has none. -/
def kind? : Term K → Option (Kind K)
  | .built primitive => some (.built primitive)
  | .number value => if Scalar.isFinite value then some (.literal value) else none
  | .descriptor value => if Scalar.isFinite value then some (.descriptor value) else none
  | .producer source => some (.producer source)
  | .array elements => some (.array elements)
  | .token t => some (.token t)
  | .reference name => some (.reference name)

end Term
end ReactiveLayout
