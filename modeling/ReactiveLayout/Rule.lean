import ReactiveLayout.Blank
import ReactiveLayout.Formula

/-! Rules: relations between expressions that a solver keeps. A rule is written as a tuple by position, either
`[left, comparator, right, strength?, weight?]` or `[left, strength?, weight?]`, which keeps `left` where it is. -/
namespace ReactiveLayout

inductive Demand (K : Type) where
  | relation (left : Affine K) (comparator : Comparator) (right : Affine K)
  /-- The target keeps the value that it has when the rule is given to the solver. -/
  | stay (target : Affine K)

/-- A demand and how firmly it is held. Weight 0 stands for no extra weight. -/
structure Rule (K : Type) where
  demand : Demand K
  strength : Strength
  weight : K

namespace Rule
variable {K : Type}

def kindName (r : Rule K) : String :=
  match r.demand with
  | .relation _ .equal _ => "equation"
  | .relation .. => "inequality"
  | .stay _ => "stay"

def quantities (r : Rule K) : List QuantityId :=
  match r.demand with
  | .relation left _ right => left.quantities ++ right.quantities
  | .stay target => target.quantities

/-- The name under which the arrays of rules report errors. -/
def owner : String := "<rule>"

def relationLimit : Nat := 5

def stayLimit : Nat := 3

/-- True of the terms that cannot lead a rule. -/
def isBlank : Term K → Bool
  | .reference name => Blank.isBlank name
  | .array elements => elements.isEmpty
  | .token _ => true
  | _ => false

variable [Scalar K]

def operand (scope : Scope K) (term : Term K) : Except (CompileError K) (Affine K) :=
  match term.classify with
  | .error e => .error e
  | .ok (.literal value) => .ok (.constant value)
  | .ok (.reference name) => scope.lookup name
  | .ok (.array elements) => Formula.compile owner elements scope
  | .ok (.built primitive) => scope.primitive primitive
  | .ok (.token token) => .error (.malformedRule (.tokenOperand token))
  | .ok (.descriptor _) | .ok (.producer _) => .error (.unresolvableTerm (.ruleOperand term))

/-- The strength at the head of the rest of a tuple. Without one it is medium. -/
def strengthOf : List (Term K) → Except (CompileError K) Strength
  | [] => .ok .medium
  | .token (.strength strength) :: _ => .ok strength
  | .built (.strength strength) :: _ => .ok strength
  | term :: _ => .error (.unrecognizedStrength term)

/-- The weight at the head of the rest of a tuple. Without one it is 0. -/
def weightOf : List (Term K) → Except (CompileError K) K
  | [] => .ok 0
  | .number weight :: _ =>
    if Scalar.isFinite weight && decide (0 ≤ weight) then .ok weight
    else .error (.malformedRule (.badWeight (.number weight)))
  | term :: _ => .error (.malformedRule (.badWeight term))

def withEmphasis (demand : Demand K) (emphasis : List (Term K)) : Except (CompileError K) (Rule K) :=
  match strengthOf emphasis with
  | .error e => .error e
  | .ok strength =>
    match weightOf emphasis.tail with
    | .error e => .error e
    | .ok weight => .ok ⟨demand, strength, weight⟩

/-- The rule `left comparator right`, its right side and emphasis being the rest of the tuple. -/
def relation (scope : Scope K) (left : Term K) (comparator : Comparator) (rest : List (Term K)) :
    Except (CompileError K) (Rule K) :=
  let tuple := left :: .token (.comparator comparator) :: rest
  if tuple.length > relationLimit then .error (.malformedRule (.tooLong tuple relationLimit))
  else
    match rest with
    | [] => .error (.malformedRule (.missingRight tuple))
    | right :: emphasis =>
      match operand scope left with
      | .error e => .error e
      | .ok l =>
        match operand scope right with
        | .error e => .error e
        | .ok r => withEmphasis (.relation l comparator r) emphasis

/-- The rule that keeps `left`, its emphasis being the rest of the tuple. -/
def stay (scope : Scope K) (left : Term K) (emphasis : List (Term K)) : Except (CompileError K) (Rule K) :=
  let tuple := left :: emphasis
  if tuple.length > stayLimit then .error (.malformedRule (.tooLong tuple stayLimit))
  else
    match operand scope left with
    | .error e => .error e
    | .ok target => withEmphasis (.stay target) emphasis

def compile (scope : Scope K) : List (Term K) → Except (CompileError K) (Rule K)
  | [] => .error (.malformedRule .empty)
  | left :: rest =>
    if isBlank left then .error (.malformedRule (.missingLeft (left :: rest)))
    else
      match rest with
      | .token (.strict comparator) :: _ => .error (.unsupportedComparator comparator)
      | .token (.comparator comparator) :: rest => relation scope left comparator rest
      | .token (.operator op) :: _ => .error (.malformedRule (.unwrappedArithmetic op))
      | emphasis => stay scope left emphasis

def compileAll (scope : Scope K) : List (List (Term K)) → Except (CompileError K) (List (Rule K))
  | [] => .ok []
  | tuple :: rest =>
    match compile scope tuple with
    | .error e => .error e
    | .ok rule =>
      match compileAll scope rest with
      | .error e => .error e
      | .ok rules => .ok (rule :: rules)

end Rule
end ReactiveLayout
