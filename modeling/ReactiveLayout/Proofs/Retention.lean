import ReactiveLayout.Minimizer
import ReactiveLayout.Proofs.Engine
import ReactiveLayout.Proofs.Registration

/-! What a build leaves in its solver: every quantity that it has registered is adjustable and at its initial value. Of
a solver this asks only that later calls of a build take nothing back, which both solvers keep, one of them if its
engine does. -/
namespace ReactiveLayout
variable {K : Type}

namespace Solver

/-- The quantity is adjustable, at this value. -/
def Holds {σ : Type} [Solver σ K] (s : σ) (id : QuantityId) (value : K) : Prop :=
  value? s id = some value ∧ isAdjustable s id = true

/-- What a build relies on: a quantity that was registered is held at its initial value, and further registrations and
rules leave it so. -/
structure Retains (σ : Type) {K : Type} [Solver σ K] : Prop where
  registered : ∀ {id : QuantityId} {initial : K} {strength : Strength} {s after : σ},
    register id initial strength s = (.ok (), after) → Holds after id initial
  kept : ∀ {id other : QuantityId} {initial value : K} {strength : Strength} {s after : σ},
    register id initial strength s = (.ok (), after) → other ≠ id → Holds s other value → Holds after other value
  ruled : ∀ {rules : List (Rule K)} {id : QuantityId} {value : K} {s after : σ},
    addRules rules s = (.ok (), after) → Holds s id value → Holds after id value

end Solver

theorem Recorder.retains : Solver.Retains (Recorder K) where
  registered registered := by
    have found := lookup_registered registered
    exact ⟨found, by simp [Solver.isAdjustable, found]⟩
  kept registered different held := by
    have same := lookup_of_register registered different
    constructor
    · exact same.trans held.1
    · exact (congrArg Option.isSome same).trans held.2
  ruled added held := by
    cases added
    exact held

/-- Nothing that a build asks of an engine ends the editing of a variable. -/
structure Engine.KeepsEdits (τ : Type) {K : Type} [Engine τ K] : Prop where
  added : ∀ {id : QuantityId} {level : K} {e after : τ}, addEdit id level e = (.ok (), after) → isEdit after id = true
  addEdit : ∀ {id other : QuantityId} {level : K} {e after : τ}, Engine.addEdit id level e = (.ok (), after) →
    isEdit e other = true → isEdit after other = true
  suggest : ∀ {id other : QuantityId} {value : K} {e after : τ}, Engine.suggest id value e = (.ok (), after) →
    isEdit e other = true → isEdit after other = true
  addConstraint : ∀ {c : Constraint K} {other : QuantityId} {e after : τ},
    Engine.addConstraint c e = (.ok (), after) → isEdit e other = true → isEdit after other = true

variable [Scalar K]

namespace EngineSolver
variable {τ : Type} [Engine τ K] {s after : EngineSolver τ K}

theorem isAdjustable_iff {id : QuantityId} :
    Solver.isAdjustable s id = true ↔ s.knows id = true ∧ Engine.isEdit s.engine id = true :=
  Bool.and_eq_true_iff

theorem addRules_kept (keeps : Engine.KeepsEdits τ) {rules : List (Rule K)} (added : s.addRules rules = (.ok (), after)) :
    after.adjustables = s.adjustables ∧
      ∀ id, Engine.isEdit s.engine id = true → Engine.isEdit after.engine id = true := by
  induction rules generalizing s with
  | nil =>
    cases added
    exact ⟨rfl, fun _ edit => edit⟩
  | cons rule rest ih =>
    rw [addRules] at added
    split at added
    · cases added
    · rename_i middle first
      obtain ⟨c, engine, _, taken, rfl⟩ := addRule_taken first
      obtain ⟨same, edits⟩ := ih added
      refine ⟨same, fun id edit => edits id ?_⟩
      exact keeps.addConstraint taken edit

theorem retains (keeps : Engine.KeepsEdits τ) : Solver.Retains (EngineSolver τ K) where
  registered := by
    intro id initial strength s after registered
    obtain ⟨fresh, added, suggested, edit, taken, rfl⟩ := register_taken registered
    have unknown : s.adjustables.lookup id = none := by
      simpa [knows] using fresh
    have found : (s.adjustables ++ [(id, initial)]).lookup id = some initial := by
      simp [List.lookup_append, unknown]
    refine ⟨found, isAdjustable_iff.mpr ⟨?_, keeps.suggest taken (keeps.added edit)⟩⟩
    simp [knows, found]
  kept := by
    intro id other initial value strength s after registered _ held
    obtain ⟨_, added, suggested, edit, taken, rfl⟩ := register_taken registered
    obtain ⟨found, adjustable⟩ := held
    have same : (s.adjustables ++ [(id, initial)]).lookup other = some value := by
      have known : s.adjustables.lookup other = some value := found
      simp [List.lookup_append, known]
    have edited := keeps.suggest taken (keeps.addEdit edit (isAdjustable_iff.mp adjustable).2)
    refine ⟨same, isAdjustable_iff.mpr ⟨?_, edited⟩⟩
    simp [knows, same]
  ruled := by
    intro rules id value s after added held
    obtain ⟨same, edits⟩ := addRules_kept keeps added
    obtain ⟨known, edit⟩ := isAdjustable_iff.mp held.2
    constructor
    · exact (congrArg (List.lookup id) same).trans held.1
    · refine isAdjustable_iff.mpr ⟨?_, edits id edit⟩
      rw [knows, same]
      exact known

end EngineSolver

namespace Optimizer
variable {m after : Optimizer K}

theorem isEdit_iff {id : QuantityId} : Engine.isEdit m id = true ↔ id ∈ m.adjustables.map (·.id) := by
  have editable : Engine.isEdit m id = (m.adjustables.find? (·.id == id)).isSome := rfl
  simp [editable, List.find?_isSome]

omit [Scalar K] in
theorem ids_anchorAt {coordinates : List Rat} (fits : coordinates.length = m.adjustables.length) :
    (m.anchorAt coordinates).adjustables.map (·.id) = m.adjustables.map (·.id) := by
  apply List.ext_getElem
  · simp [anchorAt, fits]
  · intro i here there
    simp [anchorAt]

theorem ids_reanchor {constraints : List (Constraint K)} (moved : m.reanchor? constraints = some after) :
    after.adjustables.map (·.id) = m.adjustables.map (·.id) := by
  unfold reanchor? at moved
  split at moved
  · cases moved
    rfl
  · dsimp only at moved
    split at moved
    · cases moved
      apply ids_anchorAt
      simp [optimum]
    · cases moved

theorem ids_addConstraint {c : Constraint K} {answer : Except Engine.ConstraintError Unit}
    (added : m.addConstraint c = (answer, after)) :
    after.adjustables.map (·.id) = m.adjustables.map (·.id) := by
  unfold addConstraint at added
  dsimp only at added
  generalize (if c.isHard = true then m.approach c else m.settling (m.constraints ++ [c])) = search at added
  split at added
  · split at added
    · cases added
      rfl
    · split at added
      · cases added
        rfl
      · cases added
        rfl
  · split at added
    · split at added
      · rename_i moved found
        cases added
        have same := ids_reanchor found
        exact same
      · cases added
        rfl
    · cases added
      rfl

theorem ids_addEdit {id : QuantityId} {level : K} (added : m.addEdit id level = (.ok (), after)) :
    after.adjustables.map (·.id) = m.adjustables.map (·.id) ++ [id] := by
  unfold addEdit at added
  split at added
  · cases added
  · split at added
    · cases added
      simp
    · cases added

theorem ids_suggest {id : QuantityId} {value : K} {answer : Except Engine.SuggestError Unit}
    (suggested : m.suggest id value = (answer, after)) :
    after.adjustables.map (·.id) = m.adjustables.map (·.id) := by
  unfold suggest at suggested
  split at suggested
  · cases suggested
    rfl
  · cases suggested
    rw [List.map_map]
    apply List.map_congr_left
    intro a _
    rw [Function.comp_apply]
    split
    · split <;> rfl
    · rfl

theorem ids_settle (m : Optimizer K) : m.settle.adjustables.map (·.id) = m.adjustables.map (·.id) := by
  unfold settle
  split
  · rw [List.map_map]
    rfl
  · have moved : (m.anchorAt (m.optimum m.constraints)).adjustables.map (·.id) = m.adjustables.map (·.id) :=
      ids_anchorAt (by simp [optimum])
    dsimp only
    rw [List.map_map]
    split
    · exact moved
    · rfl

theorem keepsEdits : Engine.KeepsEdits (Optimizer K) where
  added edit := by
    rw [isEdit_iff, ids_addEdit edit]
    simp
  addEdit edit known := by
    rw [isEdit_iff] at known ⊢
    rw [ids_addEdit edit]
    exact List.mem_append_left _ known
  suggest suggested known := by
    rw [isEdit_iff] at known ⊢
    rw [ids_suggest suggested]
    exact known
  addConstraint added known := by
    rw [isEdit_iff] at known ⊢
    rw [ids_addConstraint added]
    exact known

end Optimizer

/-- The solver has the quantities of the model, each adjustable and at its initial value. -/
def Model.HeldBy {σ : Type} [Solver σ K] (m : Model K) (solver : σ) : Prop :=
  ∀ id q, m.quantities.get? id = some q → Solver.Holds solver id q.value

namespace Model
variable {σ : Type} [Solver σ K] {spec : Specification K} {strength : Strength} {m final : Model K} {solver after : σ}

theorem AddsName.heldBy (retains : Solver.Retains σ) {name : String} (held : m.HeldBy solver)
    (added : AddsName spec strength name m solver final after) : final.HeldBy after := by
  cases added with
  | formula => exact held
  | @quantity term initial producer _ declared read fresh registered =>
    intro id q found
    rw [QuantityTable.get?_concat] at found
    split at found
    · rename_i here
      cases here
      cases found
      exact retains.registered registered
    · rename_i different
      exact retains.kept registered different (held id q found)

theorem Builds.heldBy (retains : Solver.Retains σ) {names : List String}
    (run : Builds spec strength names m solver final after) (held : m.HeldBy solver) : final.HeldBy after := by
  induction run with
  | nil => exact held
  | cons first _ ih => exact ih (first.heldBy retains held)

end Model

theorem Compilation.Compiled.heldBy {σ : Type} [Solver σ K] (retains : Solver.Retains σ) {spec : Specification K}
    {options : BuildOptions} {solver after : σ} {c : Compilation K} (compiled : Compiled spec options solver c after) :
    c.model.HeldBy after := by
  obtain ⟨between, run, submitted⟩ := compiled.built
  have held : c.model.HeldBy between := by
    apply run.heldBy retains
    intro id q found
    cases found
  unfold submit at submitted
  split at submitted
  · intro id q found
    exact retains.ruled submitted (held id q found)
  · cases submitted
    exact held

end ReactiveLayout
