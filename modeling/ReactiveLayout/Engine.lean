import ReactiveLayout.Constraint
import ReactiveLayout.Solver

/-! The solver of a layout on top of a simplex engine. Of the engine nothing is known here but its operations; the
solver keeps the quantities that it has made adjustable, each a variable of the engine, with the values that it has
last read off the engine, and turns every rule into a constraint of the engine. -/
namespace ReactiveLayout

namespace Engine

inductive EditError where
  | duplicate
  | required

inductive SuggestError where
  | unknown
  | failed (reason : String)

inductive ConstraintError where
  | unsatisfiable
  /-- It can be approached without end and never met. -/
  | unbounded

end Engine

/-- An incremental simplex engine with states `τ`. Its variables go by the numbers of the quantities. -/
class Engine (τ : Type) (K : outParam Type) where
  fresh : τ
  /-- Makes a variable editable, with the level of its suggestions. -/
  addEdit : QuantityId → K → τ → Reply Engine.EditError Unit τ
  isEdit : τ → QuantityId → Bool
  suggest : QuantityId → K → τ → Reply Engine.SuggestError Unit τ
  addConstraint : Constraint K → τ → Reply Engine.ConstraintError Unit τ
  /-- Brings the values up to date with all that was suggested and added. -/
  settle : τ → τ
  value : τ → QuantityId → K

structure EngineSolver (τ K : Type) [Engine τ K] where
  engine : τ := Engine.fresh
  /-- The adjustable quantities with their last values. -/
  adjustables : List (QuantityId × K) := []
  /-- The constraints that the engine has taken, in order. -/
  constraints : List (Constraint K) := []

namespace EngineSolver
variable {τ K : Type} [Engine τ K]

def knows (s : EngineSolver τ K) (id : QuantityId) : Bool := (s.adjustables.lookup id).isSome

/-- The value that a resolution last gave a quantity; one that is not registered counts as zero. -/
def valueAt [Scalar K] (s : EngineSolver τ K) (id : QuantityId) : K := (s.adjustables.lookup id).getD 0

def refusal (id : QuantityId) (value : K) : Engine.SuggestError → SolverError K
  | .unknown => .unknownQuantity id
  | .failed reason => .suggestionRejected id value reason

def suggest (id : QuantityId) (value : K) (s : EngineSolver τ K) : Reply (SolverError K) Unit (EngineSolver τ K) :=
  if s.knows id then
    match Engine.suggest id value s.engine with
    | (.error e, engine) => (.error (refusal id value e), { s with engine })
    | (.ok (), engine) => (.ok (), { s with engine })
  else (.error (.unknownQuantity id), s)

/-- Reads the values of all registered quantities off the settled engine. -/
def resolve (s : EngineSolver τ K) : Reply (SolverError K) Unit (EngineSolver τ K) :=
  let engine := Engine.settle s.engine
  (.ok (), { s with engine, adjustables := s.adjustables.map fun entry => (entry.1, Engine.value engine entry.1) })

variable [Scalar K]

/-- Makes a quantity a variable of the engine and suggests its initial value. -/
def register (id : QuantityId) (initial : K) (strength : Strength) (s : EngineSolver τ K) :
    Reply (SolverError K) Unit (EngineSolver τ K) :=
  if s.knows id then (.error (.duplicateAdjustable id), s)
  else if strength = .required then (.error (.requiredAdjustable id), s)
  else
    match Engine.addEdit id strength.level s.engine with
    | (.error .duplicate, engine) => (.error (.duplicateAdjustable id), { s with engine })
    | (.error .required, engine) => (.error (.requiredAdjustable id), { s with engine })
    | (.ok (), engine) =>
      match Engine.suggest id initial engine with
      | (.error e, engine) => (.error (refusal id initial e), { s with engine })
      | (.ok (), engine) => (.ok (), { s with engine, adjustables := s.adjustables ++ [(id, initial)] })

/-- The constraint of a rule. Every quantity that it is left with must be registered. -/
def constraint (s : EngineSolver τ K) (rule : Rule K) : Except (SolverError K) (Constraint K) :=
  let c := Constraint.ofRule s.valueAt rule
  match c.form.quantities.find? fun id => !s.knows id with
  | some id => .error (.unknownQuantity id)
  | none => .ok c

def addRule (rule : Rule K) (s : EngineSolver τ K) : Reply (SolverError K) Unit (EngineSolver τ K) :=
  match s.constraint rule with
  | .error e => (.error e, s)
  | .ok c =>
    match Engine.addConstraint c s.engine with
    | (.error .unsatisfiable, engine) => (.error (.unsatisfiable rule), { s with engine })
    | (.error .unbounded, engine) => (.error .unbounded, { s with engine })
    | (.ok (), engine) => (.ok (), { s with engine, constraints := s.constraints ++ [c] })

/-- Adds rules in turn; those in front of a refused one stay. -/
def addRules : List (Rule K) → EngineSolver τ K → Reply (SolverError K) Unit (EngineSolver τ K)
  | [], s => (.ok (), s)
  | rule :: rest, s =>
    match s.addRule rule with
    | (.error e, s) => (.error e, s)
    | (.ok (), s) => addRules rest s

instance : Solver (EngineSolver τ K) K where
  register := register
  isAdjustable s id := s.knows id && Engine.isEdit s.engine id
  suggest := suggest
  resolve := resolve
  addRules := addRules
  value? s id := s.adjustables.lookup id

end EngineSolver
end ReactiveLayout
