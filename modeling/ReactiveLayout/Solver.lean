import ReactiveLayout.Rule

/-! What a build and a scheduler ask of a solver. A call answers success or an error together with the state of the
solver afterwards, since a refused call may leave its traces as well. -/
namespace ReactiveLayout

inductive SolverError (K : Type) where
  | unknownQuantity (id : QuantityId)
  | duplicateAdjustable (id : QuantityId)
  | requiredAdjustable (id : QuantityId)
  /-- A rule that cannot hold together with those that must. -/
  | unsatisfiable (rule : Rule K)
  /-- A rule that can be approached without end and never met. -/
  | unbounded
  | suggestionRejected (id : QuantityId) (value : K) (reason : String)

def SolverError.message {K : Type} [Scalar K] : SolverError K → String
  | unknownQuantity id => "Unknown quantity " ++ quantityText id
  | duplicateAdjustable id => "Quantity " ++ quantityText id ++ " is already adjustable"
  | requiredAdjustable id => "Adjustable quantity " ++ quantityText id ++ " cannot use required strength"
  | unsatisfiable rule => "Unsatisfiable rule: " ++ rule.kindName ++ " at " ++ rule.strength.name ++ " strength"
  | unbounded => "Internal solver error: The objective is unbounded"
  | suggestionRejected id value reason =>
    "Suggestion of " ++ Scalar.text value ++ " for " ++ quantityText id ++ " was rejected: " ++ reason

/-- The result of a call that may be refused, and the state after it. -/
abbrev Reply (ε α σ : Type) := Except ε α × σ

/-- A solver of linear rules over numbered quantities, with states `σ`. -/
class Solver (σ : Type) (K : outParam Type) where
  /-- Makes a quantity adjustable, at an initial value and the strength of its suggestions. -/
  register : QuantityId → K → Strength → σ → Reply (SolverError K) Unit σ
  isAdjustable : σ → QuantityId → Bool
  /-- Asks for a value of an adjustable quantity, from the next resolution on. -/
  suggest : QuantityId → K → σ → Reply (SolverError K) Unit σ
  /-- Settles all suggestions made so far. -/
  resolve : σ → Reply (SolverError K) Unit σ
  addRules : List (Rule K) → σ → Reply (SolverError K) Unit σ
  /-- The value that the last resolution gave a quantity, or its initial value. -/
  value? : σ → QuantityId → Option K

end ReactiveLayout
