import ReactiveLayout.Compilation
import ReactiveLayout.Scheduler

/-! A running layout: a compiled specification with the solver that it was compiled on. It is built once and then
driven by ticks; between them, suggestions can be queued by name and values read. -/
namespace ReactiveLayout

structure Layout (K σ : Type) extends Loop K σ where
  formulas : NameTable (Affine K)
  prebuilt : NameTable (Affine K)
  rules : List (Rule K)
  plan : Plan
  settings : Settings K

namespace Layout
variable {K σ : Type} [Scalar K] [Solver σ K]

/-- Builds a specification on a solver. Nothing is resolved before the first tick. -/
def build (spec : Specification K) (settings : Settings K) (solver : σ) : Except (LayoutError K) (Layout K σ) :=
  match settings.validate with
  | .error e => .error (.config e)
  | .ok () =>
    let options : BuildOptions := ⟨settings.editStrength, settings.registerRules⟩
    match Compilation.compile spec options solver with
    | (.error e, _) => .error (.ofBuild e)
    | (.ok compiled, solver) =>
      .ok
        { scheduler := .start compiled.model.producers compiled.model.quantities settings.changeTolerance
          quantities := compiled.model.quantities
          solver
          formulas := compiled.model.formulas
          prebuilt := compiled.prebuilt
          rules := compiled.rules
          plan := compiled.plan
          settings }

def tick (pointer : Pointer K) (s : Layout K σ) : Reply (LayoutError K) (ChangeSet K) (Layout K σ) :=
  let (answer, loop) := s.toLoop.tick pointer
  (answer, { s with toLoop := loop })

/-- The change sets that a tick hands to a surface: the one it reports, unless that is empty. -/
def shown (answer : Except (LayoutError K) (ChangeSet K)) : List (ChangeSet K) :=
  match answer with
  | .ok changes => if changes.isEmpty then [] else [changes]
  | .error _ => []

/-- Runs one tick for a surface: the number of changed quantities, and what the surface is given. -/
def tickInto (pointer : Pointer K) (s : Layout K σ) :
    (Except (LayoutError K) Nat × List (ChangeSet K)) × Layout K σ :=
  let (answer, s) := s.tick pointer
  ((answer.map (·.size), shown answer), s)

/-- Queues a finite value for a quantity; the next tick suggests it. -/
def suggest (name : String) (value : K) (s : Layout K σ) : Reply (LayoutError K) Unit (Layout K σ) :=
  match s.quantities.id? name with
  | none => (.error (.unknownQuantity name), s)
  | some id =>
    if Scalar.isFinite value then (.ok (), { s with scheduler := s.scheduler.queue id value })
    else (.error (.solver (.suggestionRejected id value "value must be finite")), s)

def value? (s : Layout K σ) (name : String) : Option K := s.quantities.valueOf? name

/-- The value of a formula, or of an expression that existed before, at the current values. -/
def formulaValue? (s : Layout K σ) (name : String) : Option K :=
  let e := match s.formulas.get? name with
    | some e => some e
    | none => s.prebuilt.get? name
  e.map fun e => e.evaluate fun id => (s.quantities.value? id).getD 0

def snapshot (s : Layout K σ) : NameTable K := s.quantities.snapshot

def isAdjustable (s : Layout K σ) (name : String) : Bool :=
  match s.quantities.id? name with
  | some id => Solver.isAdjustable s.solver id
  | none => false

end Layout
end ReactiveLayout
