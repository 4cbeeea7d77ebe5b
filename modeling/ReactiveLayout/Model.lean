import ReactiveLayout.Plan
import ReactiveLayout.Solver

/-! The built part of a layout: its quantities, numbered in the order of the plan and known to the solver, its
formulas as expressions, and the producers that refresh quantities on every tick. -/
namespace ReactiveLayout

structure BuildOptions where
  /-- The strength at which every quantity is made adjustable. -/
  editStrength : Strength := .strong
  registerRules : Bool := true

inductive BuildError (K : Type) where
  | compile (error : CompileError K)
  | solver (error : SolverError K)

def BuildError.message {K : Type} [Scalar K] : BuildError K → String
  | compile error => error.message
  | solver error => error.message

structure Model (K : Type) where
  quantities : QuantityTable K := .empty
  formulas : NameTable (Affine K) := ∅
  /-- The producers with their quantities, in the order of the build. -/
  producers : List (QuantityId × Producer K) := []

namespace Model
variable {K σ : Type}

def scope (m : Model K) (prebuilt : NameTable (Affine K)) : Scope K := ⟨m.quantities, m.formulas, prebuilt⟩

variable [Scalar K]

/-- The initial value that a quantity is declared with, and its producer if it has one. -/
def initialOf (name : String) (term : Term K) : Except (CompileError K) (K × Option (Producer K)) :=
  match term.classify with
  | .error e => .error e
  | .ok (.producer source) => .ok (0, some source)
  | .ok (.literal value) | .ok (.descriptor value) => .ok (value, none)
  | .ok (.reference reference) => .error (.atomicReference name reference)
  | .ok (.array _) | .ok (.token _) | .ok (.built _) => .error (.unresolvableTerm (.notQuantity name term))

def expressionOf (name : String) (term : Term K) (scope : Scope K) : Except (CompileError K) (Affine K) :=
  match term.classify with
  | .error e => .error e
  | .ok (.literal value) => .ok (.constant value)
  | .ok (.array elements) => Formula.compile name elements scope
  | .ok (.built (.strength strength)) => .error (.unresolvableTerm (.strengthFormula name strength))
  | .ok (.built primitive) => scope.primitive primitive
  | .ok (.reference reference) => .error (.atomicReference name reference)
  | .ok (.descriptor _) | .ok (.producer _) | .ok (.token _) => .error (.unresolvableTerm (.notFormula name term))

variable [Solver σ K]

/-- Adds a quantity under the next number and makes it adjustable. -/
def addQuantity (editStrength : Strength) (name : String) (term : Term K) (m : Model K) (solver : σ) :
    Reply (BuildError K) (Model K) σ :=
  match initialOf name term with
  | .error e => (.error (.compile e), solver)
  | .ok (initial, producer) =>
    match m.quantities.insert? name initial with
    | none => (.error (.compile (.duplicateName name)), solver)
    | some (id, quantities) =>
      match Solver.register id initial editStrength solver with
      | (.error e, solver) => (.error (.solver e), solver)
      | (.ok (), solver) =>
        (.ok { m with quantities, producers := m.producers ++ (producer.map fun p => (id, p)).toList }, solver)

/-- Builds one name: a quantity if it is declared as one, and else a formula. -/
def addName (editStrength : Strength) (quantities formulas : NameTable (Term K)) (prebuilt : NameTable (Affine K))
    (name : String) (m : Model K) (solver : σ) : Reply (BuildError K) (Model K) σ :=
  match quantities.get? name with
  | some term => m.addQuantity editStrength name term solver
  | none =>
    match formulas.get? name with
    | none => (.error (.compile (.missingReference name)), solver)
    | some term =>
      match expressionOf name term (m.scope prebuilt) with
      | .error e => (.error (.compile e), solver)
      | .ok e => (.ok { m with formulas := m.formulas.insert name e }, solver)

def addNames (editStrength : Strength) (quantities formulas : NameTable (Term K)) (prebuilt : NameTable (Affine K)) :
    List String → Model K → σ → Reply (BuildError K) (Model K) σ
  | [], m, solver => (.ok m, solver)
  | name :: rest, m, solver =>
    match addName editStrength quantities formulas prebuilt name m solver with
    | (.error e, solver) => (.error e, solver)
    | (.ok m, solver) => addNames editStrength (quantities.erase name) formulas prebuilt rest m solver

def build (plan : Plan) (quantities formulas : NameTable (Term K)) (prebuilt : NameTable (Affine K))
    (options : BuildOptions) (solver : σ) : Reply (BuildError K) (Model K) σ :=
  addNames options.editStrength quantities formulas prebuilt plan.names {} solver

end Model
end ReactiveLayout
