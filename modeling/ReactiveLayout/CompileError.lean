import ReactiveLayout.Term

/-! Why a specification is refused. Each error keeps its cause; `message` is the only place that words it. -/
namespace ReactiveLayout

inductive FormulaFault where
  | empty
  | missingLeft (op : Operator)
  | missingRight (op : Operator)
  | missingOperator
  | unexpectedToken (token : Token)
  | unexpectedStrength (strength : Strength)

inductive RuleFault (K : Type) where
  | empty
  | missingLeft (tuple : List (Term K))
  | missingRight (tuple : List (Term K))
  | tooLong (tuple : List (Term K)) (limit : Nat)
  | unwrappedArithmetic (op : Operator)
  | tokenOperand (token : Token)
  | badWeight (term : Term K)

inductive TermFault (K : Type) where
  | notFinite (term : Term K)
  | tokenDefinition (name : String) (token : Token)
  | strengthOperand (strength : Strength)
  | insideFormula (owner : String) (term : Term K)
  | ruleOperand (term : Term K)
  | notQuantity (name : String) (term : Term K)
  | strengthFormula (name : String) (strength : Strength)
  | notFormula (name : String) (term : Term K)

inductive CompileError (K : Type) where
  | missingReference (name : String)
  | selfReference (name : String)
  /-- Formulas that mention each other in a ring; the last name is the first again. -/
  | cyclicReference (chain : List String)
  | unsupportedComparator (comparator : StrictComparator)
  | malformedRule (fault : RuleFault K)
  | malformedFormula (name : String) (fault : FormulaFault)
  | unrecognizedStrength (term : Term K)
  | unresolvableTerm (fault : TermFault K)
  /-- A quantity or formula declared as a bare name. -/
  | atomicReference (name : String) (reference : String)
  | duplicateName (name : String)
  | nonlinear (cause : Affine.Nonlinear K)

variable {K : Type} [Scalar K]

def FormulaFault.reason : FormulaFault → String
  | empty => "empty formula"
  | missingLeft op => "operator '" ++ op.symbol ++ "' must be preceded by an expression"
  | missingRight op => "operator '" ++ op.symbol ++ "' has no right-hand expression"
  | missingOperator => "expected an operator between expressions"
  | unexpectedToken token => "unexpected token '" ++ token.symbol ++ "'"
  | unexpectedStrength strength => "unexpected strength '" ++ strength.name ++ "'"

def RuleFault.reason : RuleFault K → String
  | empty => "empty rule"
  | missingLeft tuple => "rule " ++ Term.describeAll tuple ++ " has no leading term"
  | missingRight tuple => "rule " ++ Term.describeAll tuple ++ " has no right-hand term"
  | tooLong tuple limit =>
    "rule " ++ Term.describeAll tuple ++ " has " ++ toString tuple.length ++ " terms, at most " ++ toString limit ++
      " are allowed"
  | unwrappedArithmetic op =>
    "operator '" ++ op.symbol ++ "' cannot relate two terms; wrap arithmetic in a nested array"
  | tokenOperand token => "unexpected token '" ++ token.symbol ++ "' in operand position"
  | badWeight term => "weight must be a non-negative number, got " ++ term.describe

def TermFault.reason : TermFault K → String
  | notFinite term => term.describe
  | tokenDefinition name token => "'" ++ name ++ "' is defined as the token '" ++ token.symbol ++ "'"
  | strengthOperand strength => "strength '" ++ strength.name ++ "' is not an expression"
  | insideFormula owner term => term.describe ++ " cannot appear inside formula '" ++ owner ++ "'"
  | ruleOperand term => term.describe ++ " cannot be a rule operand"
  | notQuantity name term =>
    "quantity '" ++ name ++ "' must be a number, a \x7b value \x7d descriptor, or a producer, got " ++ term.describe
  | strengthFormula name strength => "formula '" ++ name ++ "' cannot be the strength '" ++ strength.name ++ "'"
  | notFormula name term => "formula '" ++ name ++ "' cannot be " ++ term.describe

def CompileError.message : CompileError K → String
  | missingReference name => "Missing reference for '" ++ name ++ "'"
  | selfReference name => "Formula '" ++ name ++ "' cannot reference itself"
  | cyclicReference chain => "Cyclic formula references: " ++ String.intercalate " -> " chain
  | unsupportedComparator comparator =>
    "The comparator '" ++ comparator.symbol ++ "' is not supported; use '<=' or '>=' instead"
  | malformedRule fault => "Malformed rule: " ++ fault.reason
  | malformedFormula name fault => "Malformed formula '" ++ name ++ "': " ++ fault.reason
  | unrecognizedStrength term => "Unrecognized strength '" ++ term.describe ++ "'"
  | unresolvableTerm fault => "Unable to resolve term: " ++ fault.reason
  | atomicReference name reference =>
    "Atomic terms cannot reference each other ('" ++ name ++ "': '" ++ reference ++ "')"
  | duplicateName name => "Name '" ++ name ++ "' is declared more than once"
  | nonlinear cause => "Non-linear expression: " ++ cause.reason

/-- The kind of a term, or the error that it has none. -/
def Term.classify (term : Term K) : Except (CompileError K) (Term.Kind K) :=
  match term.kind? with
  | some kind => .ok kind
  | none => .error (.unresolvableTerm (.notFinite term))

end ReactiveLayout
