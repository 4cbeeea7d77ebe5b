import ReactiveLayout.Model
import ReactiveLayout.Specification

/-! From a specification to a built layout: order the names, build quantities and formulas, compile the rules, and
give all rules to the solver in one batch. The first error ends it, and the rules go to the solver only when all of
them have been compiled. -/
namespace ReactiveLayout

structure Compilation (K : Type) where
  model : Model K
  rules : List (Rule K)
  plan : Plan
  prebuilt : NameTable (Affine K)

namespace Compilation
variable {K σ : Type} [Scalar K]

/-- What the names of the compiled specification mean. -/
def scope (c : Compilation K) : Scope K := c.model.scope c.prebuilt

/-- The first name that is declared both as a quantity and as a formula. -/
def doubleName? (spec : Specification K) : Option String :=
  spec.quantities.names.find? fun name => spec.formulas.contains name

def planOf (spec : Specification K) : Except (CompileError K) Plan :=
  match doubleName? spec with
  | some name => .error (.duplicateName name)
  | none => Plan.order (spec.quantities.union spec.formulas)

variable [Solver σ K]

/-- Gives rules to the solver, if they are wanted and there are any. -/
def submit (options : BuildOptions) (rules : List (Rule K)) (solver : σ) : Reply (SolverError K) Unit σ :=
  if options.registerRules && !rules.isEmpty then Solver.addRules rules solver else (.ok (), solver)

def compile (spec : Specification K) (options : BuildOptions) (solver : σ) : Reply (BuildError K) (Compilation K) σ :=
  match planOf spec with
  | .error e => (.error (.compile e), solver)
  | .ok plan =>
    match Model.build plan spec.quantities spec.formulas spec.prebuilt options solver with
    | (.error e, solver) => (.error e, solver)
    | (.ok model, solver) =>
      match Rule.compileAll (model.scope spec.prebuilt) spec.rules with
      | .error e => (.error (.compile e), solver)
      | .ok rules =>
        match submit options rules solver with
        | (.error e, solver) => (.error (.solver e), solver)
        | (.ok (), solver) => (.ok ⟨model, rules, plan, spec.prebuilt⟩, solver)

end Compilation
end ReactiveLayout
