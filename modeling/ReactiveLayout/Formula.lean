import ReactiveLayout.Scope

/-! Formula arrays. Operands and operators alternate, and the operators apply from left to right without
precedence, so `[2, "+", 3, "*", 4]` is 20; a nested array is one operand. An array is first scanned into pieces,
each element for itself except that an operator must stand behind an operand, and the pieces are then folded. -/
namespace ReactiveLayout.Formula

inductive Piece (K : Type) where
  | operand (e : Affine K)
  | operator (op : Operator)

variable {K : Type} [Scalar K]

/-- Applies the operators of the remaining pieces to an expression, from left to right. -/
def reduceFrom (owner : String) (acc : Affine K) : List (Piece K) → Except (CompileError K) (Affine K)
  | [] => .ok acc
  | .operator op :: .operand e :: rest =>
    match acc.apply op e with
    | .error cause => .error (.nonlinear cause)
    | .ok acc => reduceFrom owner acc rest
  | .operator op :: _ => .error (.malformedFormula owner (.missingRight op))
  | .operand _ :: _ => .error (.malformedFormula owner .missingOperator)

def reduce (owner : String) : List (Piece K) → Except (CompileError K) (Affine K)
  | [] => .error (.malformedFormula owner .empty)
  | .operator op :: _ => .error (.malformedFormula owner (.missingLeft op))
  | .operand e :: rest => reduceFrom owner e rest

/-- An operator is a piece only behind an operand. -/
def operatorPiece (owner : String) (previous : Option (Piece K)) (op : Operator) :
    Except (CompileError K) (Piece K) :=
  match previous with
  | some (.operand _) => .ok (.operator op)
  | _ => .error (.malformedFormula owner (.missingLeft op))

def tokenPiece (owner : String) (previous : Option (Piece K)) : Token → Except (CompileError K) (Piece K)
  | .operator op => operatorPiece owner previous op
  | .strict comparator => .error (.unsupportedComparator comparator)
  | token => .error (.malformedFormula owner (.unexpectedToken token))

def builtPiece (owner : String) (scope : Scope K) : Primitive K → Except (CompileError K) (Piece K)
  | .strength strength => .error (.malformedFormula owner (.unexpectedStrength strength))
  | primitive => (scope.primitive primitive).map .operand

mutual

/-- The piece of one element that stands behind the piece `previous`. -/
def piece (owner : String) (scope : Scope K) (previous : Option (Piece K)) : Term K → Except (CompileError K) (Piece K)
  | .number value =>
    if Scalar.isFinite value then .ok (.operand (.constant value))
    else .error (.unresolvableTerm (.notFinite (.number value)))
  | .descriptor value =>
    if Scalar.isFinite value then .error (.unresolvableTerm (.insideFormula owner (.descriptor value)))
    else .error (.unresolvableTerm (.notFinite (.descriptor value)))
  | .producer source => .error (.unresolvableTerm (.insideFormula owner (.producer source)))
  | .token token => tokenPiece owner previous token
  | .reference name => (scope.lookup name).map .operand
  | .built primitive => builtPiece owner scope primitive
  | .array elements =>
    match scan owner scope none elements with
    | .error e => .error e
    | .ok pieces => (reduce owner pieces).map .operand

def scan (owner : String) (scope : Scope K) (previous : Option (Piece K)) :
    List (Term K) → Except (CompileError K) (List (Piece K))
  | [] => .ok []
  | term :: rest =>
    match piece owner scope previous term with
    | .error e => .error e
    | .ok next =>
      match scan owner scope (some next) rest with
      | .error e => .error e
      | .ok pieces => .ok (next :: pieces)

end

/-- Compiles the array of a formula; `owner` is the name that its errors carry. -/
def compile (owner : String) (elements : List (Term K)) (scope : Scope K) : Except (CompileError K) (Affine K) :=
  match scan owner scope none elements with
  | .error e => .error e
  | .ok pieces => reduce owner pieces

end ReactiveLayout.Formula
