import Mathlib.Logic.Function.Basic
import ReactiveLayout.Proofs.Coherence
import ReactiveLayout.Proofs.Overheard

/-! What a solver on an engine has shown. Beside a run of inputs goes a ledger of the values of the last resolution, or of
the initial ones where none has come since the registration. The values that the solver keeps are those of the ledger:
suggestions and rules, taken or refused, move none of them. -/
namespace ReactiveLayout
variable {K : Type}

namespace Solver
variable {σ : Type} [Solver σ K]

def give (s : σ) : Input K → Reply (SolverError K) Unit σ
  | .register id initial strength => register id initial strength s
  | .suggest id value => suggest id value s
  | .resolve => resolve s
  | .addRules rules => addRules rules s

def giveAll (s : σ) (inputs : List (Input K)) : σ := inputs.foldl (fun s input => (give s input).2) s

/-- What no input changes, taken or refused, no run of inputs changes. -/
theorem giveAll_invariant {P : σ → Prop} (kept : ∀ s input, P s → P (give s input).2) {s : σ} (start : P s)
    (inputs : List (Input K)) : P (giveAll s inputs) :=
  List.foldlRecOn (motive := P) inputs _ start fun s holds input _ => kept s input holds

end Solver

variable {τ : Type} [Engine τ K] [Scalar K]

/-- A solver with the values that it has shown last. -/
structure Ledger (τ K : Type) [Engine τ K] where
  solver : EngineSolver τ K := {}
  last : QuantityId → Option K := fun _ => none

namespace Ledger

/-- An accepted registration enters the initial value, and a resolution what the engine then says of every quantity that
is entered. -/
def entered (last : QuantityId → Option K) :
    Solver.Input K → Reply (SolverError K) Unit (EngineSolver τ K) → QuantityId → Option K
  | .register id initial _, (.ok (), _) => Function.update last id (some initial)
  | .resolve, (.ok (), after) => fun id => (last id).map fun _ => Engine.value after.engine id
  | _, _ => last

def step (l : Ledger τ K) (input : Solver.Input K) : Ledger τ K :=
  let reply := Solver.give l.solver input
  ⟨reply.2, entered l.last input reply⟩

def run (l : Ledger τ K) (inputs : List (Solver.Input K)) : Ledger τ K := inputs.foldl step l

/-- The value that a quantity has shown last, zero for one that is not registered. -/
def lastValue (l : Ledger τ K) (id : QuantityId) : K := (l.last id).getD 0

variable {l : Ledger τ K}

/-- The solver keeps what the ledger has. -/
def IsKept (l : Ledger τ K) : Prop := ∀ id, l.solver.adjustables.lookup id = l.last id

theorem IsKept.register (kept : l.IsKept) (id : QuantityId) (initial : K) (strength : Strength) :
    (l.step (.register id initial strength)).IsKept := by
  have given : Solver.give l.solver (.register id initial strength) = l.solver.register id initial strength := rfl
  rw [step, given]
  cases reply : l.solver.register id initial strength with
  | mk answer after =>
    cases answer with
    | error e =>
      obtain ⟨_, rfl⟩ := EngineSolver.register_refused reply
      exact kept
    | ok =>
      obtain ⟨unknown, _, _, _, _, rfl⟩ := EngineSolver.register_taken reply
      intro other
      change (l.solver.adjustables ++ [(id, initial)]).lookup other = Function.update l.last id (some initial) other
      rw [EngineSolver.lookup_concat]
      by_cases same : other = id
      · have missing : l.solver.adjustables.lookup other = none := by
          rw [same, ← Option.not_isSome_iff_eq_none, ← EngineSolver.knows, unknown]
          exact Bool.false_ne_true
        rw [missing, if_pos same, Option.none_or, same, Function.update_self]
      · rw [if_neg same, Option.or_none, kept other, Function.update_of_ne same]

theorem IsKept.step (kept : l.IsKept) (input : Solver.Input K) : (l.step input).IsKept := by
  cases input with
  | register id initial strength => exact kept.register id initial strength
  | suggest id value =>
    intro other
    change (l.solver.suggest id value).2.adjustables.lookup other = l.last other
    rcases l.solver.suggest_cases id value with same | drawn
    · rw [same, kept other]
    · rw [drawn, kept other]
  | resolve =>
    intro other
    change l.solver.resolve.2.adjustables.lookup other = _
    rw [EngineSolver.lookup_resolve, kept other]
    rfl
  | addRules rules =>
    intro other
    change (l.solver.addRules rules).2.adjustables.lookup other = l.last other
    rw [EngineSolver.addRules_adjustables, kept other]

theorem IsKept.run (kept : l.IsKept) (inputs : List (Solver.Input K)) : (l.run inputs).IsKept :=
  List.foldlRecOn (motive := IsKept) inputs _ kept fun _ kept input _ => kept.step input

theorem isKept_run (inputs : List (Solver.Input K)) : (({} : Ledger τ K).run inputs).IsKept :=
  IsKept.run (fun _ => rfl) inputs

theorem solver_run (l : Ledger τ K) (inputs : List (Solver.Input K)) :
    (l.run inputs).solver = Solver.giveAll l.solver inputs := by
  induction inputs generalizing l with
  | nil => rfl
  | cons input rest ih => exact ih (l.step input)

theorem IsKept.valueAt_eq (kept : l.IsKept) : l.solver.valueAt = l.lastValue := by
  funext id
  rw [EngineSolver.valueAt, kept id, lastValue]

omit [Scalar K] in
theorem IsKept.knows_eq (kept : l.IsKept) (id : QuantityId) : l.solver.knows id = (l.last id).isSome := by
  rw [EngineSolver.knows, kept id]

end Ledger
end ReactiveLayout
