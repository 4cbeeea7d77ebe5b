import ReactiveLayout.Proofs.Commands
import ReactiveLayout.Proofs.Retention
import ReactiveLayout.Proofs.Upkeep

/-! The table of a layout is a second copy of the values in its solver, and only a resolution refreshes it. A solver
whose values move in resolutions alone leaves the copy right: every tick and every suggestion keeps table and solver
coherent, however it ends. Both solvers are such, one of them if its engine never drops an edit variable. -/
namespace ReactiveLayout
variable {K σ : Type}

namespace Solver

/-- What a run relies on beyond a build: a suggestion, taken or refused, leaves all values, and so does a resolution
that fails; one that succeeds leaves every quantity with a value. -/
structure Steady (σ : Type) {K : Type} [Solver σ K] : Prop extends Retains σ where
  suggested : ∀ {id other : QuantityId} {asked value : K} {s : σ}, Holds s other value →
    Holds (suggest id asked s).2 other value
  unresolved : ∀ {id : QuantityId} {value : K} {e : SolverError K} {s after : σ}, resolve s = (.error e, after) →
    Holds s id value → Holds after id value
  resolved : ∀ {id : QuantityId} {value : K} {s after : σ}, resolve s = (.ok (), after) → Holds s id value →
    ∃ settled, Holds after id settled

/-- A way to lack a quantity that only its own registration ends. -/
structure Forgoes [Solver σ K] (Lacks : σ → QuantityId → Prop) : Prop where
  valueless : ∀ {s : σ} {id : QuantityId}, Lacks s id → value? s id = none
  registered : ∀ {id other : QuantityId} {initial : K} {strength : Strength} {s : σ}, other ≠ id → Lacks s other →
    Lacks (register id initial strength s).2 other
  ruled : ∀ {rules : List (Rule K)} {id : QuantityId} {s : σ}, Lacks s id → Lacks (addRules rules s).2 id
  suggested : ∀ {id other : QuantityId} {asked : K} {s : σ}, Lacks s other → Lacks (suggest id asked s).2 other
  resolved : ∀ {id : QuantityId} {s : σ}, Lacks s id → Lacks (resolve s).2 id

end Solver

section
variable [Scalar K] [Solver σ K]

namespace Loop

/-- The solver holds every quantity at its value in the table. -/
def Coherent (l : Loop K σ) : Prop := ∀ id q, l.quantities.get? id = some q → Solver.Holds l.solver id q.value

variable {l : Loop K σ}

omit [Scalar K] in
theorem Coherent.suggestAll (steady : Solver.Steady σ) (coherent : l.Coherent) (suggestions : List (QuantityId × K))
    {id : QuantityId} {q : Quantity K} (found : l.quantities.get? id = some q) :
    Solver.Holds (suggestAll suggestions l.solver).2 id q.value :=
  suggestAll_invariant (P := fun solver => Solver.Holds solver id q.value) (fun _ _ _ held => steady.suggested held)
    (coherent id q found)

theorem Coherent.tick (steady : Solver.Steady σ) (coherent : l.Coherent) (pointer : Pointer K) :
    (l.tick pointer).2.Coherent := by
  have ended := tick_cases pointer l
  generalize l.tick pointer = reply at ended
  cases ended with
  | stopped | idle => exact coherent
  | @refused values _ _ _ _ cut =>
    intro id q found
    have held := coherent.suggestAll steady (values ++ l.scheduler.pending) found
    rwa [cut] at held
  | @unsettled values _ _ _ _ _ taken _ failed =>
    intro id q found
    have held := coherent.suggestAll steady (values ++ l.scheduler.pending) found
    rw [taken] at held
    exact steady.unresolved failed held
  | @settled values producers solver after _ taken _ settles =>
    intro id q found
    -- The new entry has the value that the solver has now, since the solver held the old one all the time.
    have entry := getElem?_settle l.scheduler.tolerance (Solver.value? after) 0 l.quantities.entries
      l.scheduler.reported id
    obtain ⟨old, former, rfl⟩ := Option.map_eq_some_iff.mp (entry.symm.trans found)
    have held : Solver.Holds (Loop.suggestAll (values ++ l.scheduler.pending) l.solver).2 id old.value :=
      coherent.suggestAll steady _ former
    rw [taken] at held
    obtain ⟨value, held⟩ := steady.resolved settles held
    rw [Nat.zero_add, held.1]
    exact held

end Loop

namespace Model
variable {spec : Specification K} {strength : Strength} {m final : Model K} {solver after : σ}
  {Lacks : σ → QuantityId → Prop}

theorem AddsName.lacks (forgoes : Solver.Forgoes Lacks) {name : String}
    (added : AddsName spec strength name m solver final after)
    (start : ∀ id, m.quantities.size ≤ id → Lacks solver id) (id : QuantityId) (outside : final.quantities.size ≤ id) :
    Lacks after id := by
  cases added with
  | formula => exact start id outside
  | @quantity _ initial _ _ _ _ _ registered =>
    simp only [QuantityTable.size, List.length_append, List.length_singleton] at outside
    have later : m.quantities.size < id := outside
    obtain rfl : (Solver.register m.quantities.size initial strength solver).2 = after := congrArg Prod.snd registered
    exact forgoes.registered (Nat.ne_of_gt later) (start id (Nat.le_of_lt later))

theorem Builds.lacks (forgoes : Solver.Forgoes Lacks) {names : List String}
    (run : Builds spec strength names m solver final after)
    (start : ∀ id, m.quantities.size ≤ id → Lacks solver id) : ∀ id, final.quantities.size ≤ id → Lacks after id := by
  induction run with
  | nil => exact start
  | cons first _ ih => exact ih (first.lacks forgoes start)

end Model

/-- Started on a solver without quantities, a build leaves it with none but those of the model. -/
theorem Compilation.Compiled.lacks {Lacks : σ → QuantityId → Prop} (forgoes : Solver.Forgoes Lacks)
    {spec : Specification K} {options : BuildOptions} {solver after : σ} {c : Compilation K}
    (compiled : Compiled spec options solver c after) (start : ∀ id, Lacks solver id) (id : QuantityId)
    (outside : c.model.quantities.size ≤ id) : Lacks after id := by
  obtain ⟨between, run, submitted⟩ := compiled.built
  have lacked := run.lacks forgoes (fun id _ => start id) id outside
  unfold submit at submitted
  split at submitted
  · obtain rfl : (Solver.addRules c.rules between).2 = after := congrArg Prod.snd submitted
    exact forgoes.ruled lacked
  · cases submitted
    exact lacked

namespace Layout

/-- The solver's own value of a quantity, zero where it has none. -/
def solverValue (s : Layout K σ) (id : QuantityId) : K := (Solver.value? s.solver id).getD 0

/-- What a layout that was built from a specification says of its quantities is what its solver says. -/
structure OneTruth (spec : Specification K) (built s : Layout K σ) : Prop where
  values : ∀ name ∈ spec.quantities.names, ∃ id value, s.quantities.id? name = some id ∧
    Solver.value? s.solver id = some value ∧ s.value? name = some value
  /-- A number that is none of the layout counts as zero in a formula, whatever the solver holds under it. -/
  formulas : ∀ name ∈ spec.formulas.names, ∃ e, built.formulas.get? name = some e ∧
    s.formulaValue? name = some (e.evaluate fun id => if s.quantities.contains id then s.solverValue id else 0)
  adjustable : ∀ name, s.isAdjustable name = true ↔ name ∈ spec.quantities.names

/-- Every formula has its value at the values of the solver. -/
def ReadsSolver (spec : Specification K) (built s : Layout K σ) : Prop :=
  ∀ name ∈ spec.formulas.names, ∃ e, built.formulas.get? name = some e ∧
    s.formulaValue? name = some (e.evaluate s.solverValue)

/-- The solver has no values but those of the layout's quantities. -/
def Sole (s : Layout K σ) : Prop := ∀ id, s.quantities.contains id = false → Solver.value? s.solver id = none

/-- The invariant of a run. -/
structure Truthful (spec : Specification K) (built s : Layout K σ) : Prop where
  coherent : s.toLoop.Coherent
  names : s.quantities.names = spec.quantities.names
  formulas : s.formulas = built.formulas
  known : built.formulas.names = spec.formulas.names

variable {spec : Specification K} {settings : Settings K} {solver : σ} {built s : Layout K σ}

theorem build_truthful (retains : Solver.Retains σ) (accepted : build spec settings solver = .ok built) :
    Truthful spec built built := by
  obtain ⟨_, c, after, compiles, rfl⟩ := build_ok_iff.mp accepted
  have compiled := Compilation.compile_ok compiles
  exact ⟨compiled.heldBy retains, compiled.quantity_names, rfl, compiled.formula_names⟩

theorem Truthful.follow (steady : Solver.Steady σ) (truthful : Truthful spec built s) (commands : List (Command K)) :
    Truthful spec built (s.follow commands) := by
  refine follow_invariant ?_ ?_ truthful commands
  · intro s pointer ⟨coherent, names, formulas, known⟩
    exact ⟨coherent.tick steady pointer, (Loop.tick_names pointer).trans names, formulas, known⟩
  · intro s id value ⟨coherent, names, formulas, known⟩ _
    exact ⟨coherent, names, formulas, known⟩

theorem Truthful.tableValue_eq (truthful : Truthful spec built s) :
    (fun id => (s.quantities.value? id).getD 0) = fun id => if s.quantities.contains id then s.solverValue id else 0 := by
  funext id
  split
  · rename_i known
    obtain ⟨q, found⟩ : ∃ q, s.quantities.get? id = some q :=
      ⟨_, List.getElem?_eq_getElem (QuantityTable.contains_iff.mp known)⟩
    rw [QuantityTable.value?, found, solverValue, (truthful.coherent id q found).1]
    rfl
  · rename_i unknown
    have outside : s.quantities.get? id = none :=
      List.getElem?_eq_none (Nat.le_of_not_lt (mt QuantityTable.contains_iff.mpr unknown))
    rw [QuantityTable.value?, outside]
    rfl

theorem Truthful.oneTruth (truthful : Truthful spec built s) : OneTruth spec built s := by
  have unique : s.quantities.names.Nodup := truthful.names ▸ spec.quantities.names_nodup
  have numbered {name : String} (declared : name ∈ spec.quantities.names) :
      ∃ id q, s.quantities.id? name = some id ∧ s.quantities.get? id = some q ∧ q.name = name := by
    obtain ⟨q, member, named⟩ := List.mem_map.mp (truthful.names ▸ declared : name ∈ s.quantities.names)
    obtain ⟨id, found⟩ := List.mem_iff_getElem?.mp member
    exact ⟨id, q, (QuantityTable.id?_eq_some_iff unique).mpr ⟨q, found, named⟩, found, named⟩
  refine ⟨?_, ?_, ?_⟩
  · intro name declared
    obtain ⟨id, q, known, found, rfl⟩ := numbered declared
    exact ⟨id, q.value, known, (truthful.coherent id q found).1, QuantityTable.valueOf?_of_getElem? unique found⟩
  · intro name declared
    obtain ⟨e, stored⟩ := (NameTable.mem_names_iff _ _).mp (truthful.known ▸ declared)
    refine ⟨e, stored, ?_⟩
    simp only [formulaValue?, truthful.formulas, stored, Option.map_some, truthful.tableValue_eq]
  · intro name
    constructor
    · intro adjustable
      unfold isAdjustable at adjustable
      split at adjustable
      · rename_i id known
        obtain ⟨q, found, named⟩ := (QuantityTable.id?_eq_some_iff unique).mp known
        rw [← truthful.names]
        exact List.mem_map.mpr ⟨q, List.mem_of_getElem? found, named⟩
      · cases adjustable
    · intro declared
      obtain ⟨id, q, known, found, _⟩ := numbered declared
      simp only [isAdjustable, known, (truthful.coherent id q found).2]

/-- Started on a solver without quantities, a layout stays the only one that has quantities there. -/
theorem follow_lacks {Lacks : σ → QuantityId → Prop} (forgoes : Solver.Forgoes Lacks) (start : ∀ id, Lacks solver id)
    (accepted : build spec settings solver = .ok s) (commands : List (Command K)) (id : QuantityId)
    (outside : (s.follow commands).quantities.contains id = false) : Lacks (s.follow commands).solver id := by
  refine follow_invariant (P := fun s => s.quantities.contains id = false → Lacks s.solver id) ?_ ?_ ?_ commands outside
  · intro s pointer lacked outside
    refine Loop.tick_solver (P := fun solver => Lacks solver id) (Q := fun _ => True) pointer
      (fun _ _ _ _ _ => trivial) (fun _ _ => trivial) (fun _ _ _ lacked => forgoes.suggested lacked)
      (fun _ lacked => forgoes.resolved lacked) (lacked ?_)
    have size : (s.tick pointer).2.quantities.size = s.quantities.size := Loop.tick_size pointer
    rwa [QuantityTable.contains, size] at outside
  · intro s _ _ lacked _
    exact lacked
  · intro outside
    obtain ⟨_, c, after, compiles, rfl⟩ := build_ok_iff.mp accepted
    refine (Compilation.compile_ok compiles).lacks forgoes start id (Nat.le_of_not_lt ?_)
    exact of_decide_eq_false outside

theorem follow_sole {Lacks : σ → QuantityId → Prop} (forgoes : Solver.Forgoes Lacks) (start : ∀ id, Lacks solver id)
    (accepted : build spec settings solver = .ok s) (commands : List (Command K)) : (s.follow commands).Sole :=
  fun id outside => forgoes.valueless (follow_lacks forgoes start accepted commands id outside)

theorem OneTruth.readsSolver (truth : OneTruth spec built s) (sole : s.Sole) : ReadsSolver spec built s := by
  have same : (fun id => if s.quantities.contains id then s.solverValue id else 0) = s.solverValue := by
    funext id
    cases outside : s.quantities.contains id with
    | true => rfl
    | false =>
      rw [solverValue, sole id outside]
      rfl
  intro name declared
  obtain ⟨e, stored, value⟩ := truth.formulas name declared
  exact ⟨e, stored, by rw [value, same]⟩

end Layout
end

namespace ValueMap

theorem isSome_lookup_set {id other : QuantityId} {value : K} {values : ValueMap K}
    (known : (values.lookup other).isSome = true) : ((set id value values).lookup other).isSome = true := by
  by_cases same : other = id
  · rw [same, lookup_set_self]
    rfl
  · rwa [lookup_set_ne value values same]

theorem isSome_lookup_update {id other : QuantityId} {value : K} {values : ValueMap K}
    (known : (values.lookup other).isSome = true) : ((values.update id value).lookup other).isSome = true := by
  unfold update
  split
  · exact isSome_lookup_set known
  · exact known

theorem lookup_update_none {id other : QuantityId} {value : K} {values : ValueMap K}
    (unknown : values.lookup other = none) : (values.update id value).lookup other = none := by
  unfold update
  split
  · rename_i known
    have different : other ≠ id := by
      rintro rfl
      rw [unknown] at known
      cases known
    rwa [lookup_set_ne value values different]
  · exact unknown

end ValueMap

namespace Recorder

/-- The recorder has no value for the quantity and no suggestion that would give it one. -/
def Lacks (r : Recorder K) (id : QuantityId) : Prop := r.values.lookup id = none ∧ ∀ s ∈ r.pending, s.1 ≠ id

theorem values_suggest (r : Recorder K) (id : QuantityId) (value : K) : (r.suggest id value).2.values = r.values := by
  unfold suggest
  dsimp only
  split
  · rfl
  · split <;> rfl

theorem steady : Solver.Steady (Recorder K) where
  toRetains := retains
  suggested {id other asked value r} held := by
    have same : (r.suggest id asked).2.values = r.values := values_suggest r id asked
    constructor
    · exact (congrArg (List.lookup other) same).trans held.1
    · exact (congrArg (fun values => (List.lookup other values).isSome) same).trans held.2
  unresolved failed := by cases failed
  resolved {id value r after} settles held := by
    cases settles
    -- Suggestions and forced values are written one after another, and no write takes a value away.
    have asked : ((r.pending.foldl (fun values s => values.set s.1 s.2) r.values).lookup id).isSome = true :=
      List.foldlRecOn (motive := fun values : ValueMap K => (values.lookup id).isSome = true) _ _ held.2
        fun _ known _ _ => ValueMap.isSome_lookup_set known
    have settled : (r.resolve.2.values.lookup id).isSome = true :=
      List.foldlRecOn (motive := fun values : ValueMap K => (values.lookup id).isSome = true) _ _ asked
        fun _ known _ _ => ValueMap.isSome_lookup_update known
    obtain ⟨final, found⟩ := Option.isSome_iff_exists.mp settled
    exact ⟨final, found, settled⟩

theorem forgoes : Solver.Forgoes (σ := Recorder K) Lacks where
  valueless lacked := lacked.1
  registered {id other initial strength r} different lacked := by
    have same : (r.register id initial strength).2.values.lookup other = r.values.lookup other :=
      lookup_of_register Prod.mk.eta.symm different
    refine ⟨same.trans lacked.1, ?_⟩
    have pending : (r.register id initial strength).2.pending = r.pending := by
      unfold register
      dsimp only
      split
      · rfl
      · split <;> rfl
    exact fun s member => lacked.2 s (pending ▸ member)
  ruled lacked := lacked
  suggested {id other asked r} lacked := by
    have same : (r.suggest id asked).2.values = r.values := values_suggest r id asked
    refine ⟨(congrArg (List.lookup other) same).trans lacked.1, ?_⟩
    change ∀ s ∈ (r.suggest id asked).2.pending, s.1 ≠ other
    unfold suggest
    dsimp only
    split
    · exact lacked.2
    · rename_i known
      split
      · exact lacked.2
      · intro s member
        rcases List.mem_append.mp member with old | new
        · exact lacked.2 s old
        · obtain rfl := List.mem_singleton.mp new
          rintro rfl
          exact known (Option.isNone_iff_eq_none.mpr lacked.1)
  resolved {id r} lacked := by
    have asked : (r.pending.foldl (fun values s => values.set s.1 s.2) r.values).lookup id = none :=
      List.foldlRecOn (motive := fun values : ValueMap K => values.lookup id = none) _ _ lacked.1
        fun _ unknown s member => (ValueMap.lookup_set_ne _ _ (lacked.2 s member).symm).trans unknown
    refine ⟨?_, fun _ member => (nomatch member)⟩
    exact List.foldlRecOn (motive := fun values : ValueMap K => values.lookup id = none) _ _ asked
      fun _ unknown _ _ => ValueMap.lookup_update_none unknown

end Recorder

/-- No operation of a run drops an edit variable either, refused or not. -/
structure Engine.NeverDrops (τ : Type) {K : Type} [Engine τ K] : Prop extends Engine.KeepsEdits τ where
  suggested : ∀ {id other : QuantityId} {value : K} {e : τ}, isEdit e other = true →
    isEdit (Engine.suggest id value e).2 other = true
  settled : ∀ {other : QuantityId} {e : τ}, isEdit e other = true → isEdit (settle e) other = true

variable [Scalar K]

namespace EngineSolver
variable {τ : Type} [Engine τ K]

def Lacks (s : EngineSolver τ K) (id : QuantityId) : Prop := s.adjustables.lookup id = none

theorem steady (keeps : Engine.NeverDrops τ) : Solver.Steady (EngineSolver τ K) where
  toRetains := retains keeps.toKeepsEdits
  suggested {id other asked value s} held := by
    obtain ⟨known, edit⟩ := isAdjustable_iff.mp held.2
    have reply : (Solver.suggest id asked s).2 = s ∨
        (Solver.suggest id asked s).2 = { s with engine := (Engine.suggest id asked s.engine).2 } :=
      suggest_cases s id asked
    rcases reply with same | drawn
    · rwa [same]
    · rw [drawn]
      exact ⟨held.1, isAdjustable_iff.mpr ⟨known, keeps.suggested edit⟩⟩
  unresolved failed := by cases failed
  resolved {id value s after} settles held := by
    cases settles
    obtain ⟨known, edit⟩ := isAdjustable_iff.mp held.2
    have found : s.resolve.2.adjustables.lookup id = some (Engine.value (Engine.settle s.engine) id) := by
      have former : s.adjustables.lookup id = some value := held.1
      rw [lookup_resolve, former]
      rfl
    refine ⟨_, found, isAdjustable_iff.mpr ⟨?_, keeps.settled edit⟩⟩
    exact (congrArg Option.isSome found).trans rfl

theorem addRules_adjustables (rules : List (Rule K)) (s : EngineSolver τ K) :
    (s.addRules rules).2.adjustables = s.adjustables := by
  induction rules generalizing s with
  | nil => rfl
  | cons rule rest ih =>
    have first : (s.addRule rule).2.adjustables = s.adjustables := by
      unfold addRule
      split
      · rfl
      · split <;> rfl
    rw [addRules]
    generalize s.addRule rule = reply at first
    obtain ⟨answer, between⟩ := reply
    cases answer with
    | error e => exact first
    | ok => exact (ih between).trans first

theorem forgoes : Solver.Forgoes (σ := EngineSolver τ K) Lacks where
  valueless lacked := lacked
  registered {id other initial strength s} different lacked := by
    have unknown : s.adjustables.lookup other = none := lacked
    change (s.register id initial strength).2.adjustables.lookup other = none
    cases reply : s.register id initial strength with
    | mk answer after =>
      cases answer with
      | error e =>
        obtain ⟨_, rfl⟩ := register_refused reply
        exact unknown
      | ok =>
        obtain ⟨_, _, _, _, _, rfl⟩ := register_taken reply
        rw [lookup_concat, unknown, if_neg different, Option.none_or]
  ruled {rules id s} lacked := (congrArg (List.lookup id) (addRules_adjustables rules s)).trans lacked
  suggested {id other asked s} lacked := by
    change (s.suggest id asked).2.adjustables.lookup other = none
    rcases suggest_cases s id asked with same | drawn
    · rwa [same]
    · rwa [drawn]
  resolved {id s} lacked := by
    have unknown : s.adjustables.lookup id = none := lacked
    change s.resolve.2.adjustables.lookup id = none
    rw [lookup_resolve, unknown]
    rfl

end EngineSolver

theorem Optimizer.neverDrops : Engine.NeverDrops (Optimizer K) where
  toKeepsEdits := keepsEdits
  suggested {id other value m} edit := by
    have same : (m.suggest id value).2.adjustables.map (·.id) = m.adjustables.map (·.id) :=
      ids_suggest Prod.mk.eta.symm
    rw [isEdit_iff] at edit ⊢
    exact same.symm ▸ edit
  settled {other m} edit := by
    rw [isEdit_iff] at edit ⊢
    exact (ids_settle m).symm ▸ edit

namespace Layout

/-- Table and solver never part, whatever a layout is asked and however that ends. Formulas are read at the values of the
solver, if it had no quantities before the layout was built on it; from one that had, they take those of the layout. -/
theorem one_source_of_truth {τ : Type} [Engine τ K] (spec : Specification K) (settings : Settings K)
    (commands : List (Command K)) :
    (∀ (r : Recorder K) built, build spec settings r = .ok built → OneTruth spec built (built.follow commands) ∧
      (r.values = [] → r.pending = [] → ReadsSolver spec built (built.follow commands))) ∧
    (Engine.NeverDrops τ → ∀ (e : EngineSolver τ K) built, build spec settings e = .ok built →
      OneTruth spec built (built.follow commands) ∧
        (e.adjustables = [] → ReadsSolver spec built (built.follow commands))) := by
  constructor
  · intro r built accepted
    have truth := ((build_truthful Recorder.retains accepted).follow Recorder.steady commands).oneTruth
    refine ⟨truth, fun values pending => truth.readsSolver ?_⟩
    refine follow_sole Recorder.forgoes (fun id => ?_) accepted commands
    rw [Recorder.Lacks, values, pending]
    exact ⟨rfl, fun _ member => (nomatch member)⟩
  · intro keeps e built accepted
    have truth := ((build_truthful (EngineSolver.retains keeps.toKeepsEdits) accepted).follow
      (EngineSolver.steady keeps) commands).oneTruth
    refine ⟨truth, fun fresh => truth.readsSolver ?_⟩
    refine follow_sole EngineSolver.forgoes (fun id => ?_) accepted commands
    rw [EngineSolver.Lacks, fresh]
    rfl

theorem panel_records : ∃ s, build panel .standard (({} : Recorder Rat).reject 1) = .ok s := by
  have ok : (build panel .standard (({} : Recorder Rat).reject 1)).isOk = true := by decide +kernel
  generalize build panel .standard (({} : Recorder Rat).reject 1) = answer at ok
  cases answer with
  | error e => cases ok
  | ok s => exact ⟨s, rfl⟩

theorem panel_one_source_of_truth :
    let commands := [.tick ⟨10, 0⟩, .suggest "right" 30, .tickInto ⟨60, 0⟩, .suggest "left" 5, .tick ⟨1, 0⟩]
    (∃ built, build panel .standard (({} : Recorder Rat).reject 1) = .ok built ∧
      OneTruth panel built (built.follow commands) ∧ ReadsSolver panel built (built.follow commands)) ∧
    ∃ built, build panel .standard ({} : Minimizer Rat) = .ok built ∧
      OneTruth panel built (built.follow commands) ∧ ReadsSolver panel built (built.follow commands) := by
  constructor
  · obtain ⟨built, accepted⟩ := panel_records
    obtain ⟨truth, reads⟩ := (one_source_of_truth (τ := Optimizer Rat) panel .standard _).1 _ built accepted
    exact ⟨built, accepted, truth, reads rfl rfl⟩
  · obtain ⟨built, _, accepted, _⟩ := panel_ticks
    obtain ⟨truth, reads⟩ := (one_source_of_truth panel .standard _).2 Optimizer.neverDrops _ built accepted
    exact ⟨built, accepted, truth, reads rfl⟩

/-- The formula is an expression of a quantity that only the solver has. -/
def stretched : Specification Rat :=
  let spec : Specification Rat := {}
  spec
    |>.declare "a" (.number 1)
    |>.assume "p" (.quantity 5)
    |>.define "f" (.array [.reference "p"])

/-- A recorder that had this quantity before. -/
def occupied : Recorder Rat := (({} : Recorder Rat).register 5 7 .strong).2

/-- A formula is not read at the values of a solver that had quantities before: it takes zero where that holds seven. -/
theorem foreign_quantity_unread : ∃ built e, build stretched .standard occupied = .ok built ∧
    built.formulas.get? "f" = some e ∧ built.formulaValue? "f" = some 0 ∧ e.evaluate built.solverValue = 7 ∧
      ¬ ReadsSolver stretched built built := by
  have checked : (build stretched .standard occupied).toOption.any (fun built => (built.formulas.get? "f").any fun e =>
      built.formulaValue? "f" == some 0 && e.evaluate built.solverValue == 7) = true := by decide +kernel
  cases accepted : build stretched .standard occupied with
  | error e =>
    rw [accepted] at checked
    cases checked
  | ok built =>
    rw [accepted] at checked
    obtain ⟨e, stored, differ⟩ := (Option.any_eq_true _ (built.formulas.get? "f")).mp checked
    rw [Bool.and_eq_true, beq_iff_eq, beq_iff_eq] at differ
    refine ⟨built, e, rfl, stored, differ.1, differ.2, fun reads => ?_⟩
    obtain ⟨other, same, value⟩ := reads "f" (by decide)
    obtain rfl : e = other := Option.some.inj (stored.symm.trans same)
    rw [differ.1, differ.2] at value
    exact absurd value (by decide)

end Layout
end ReactiveLayout
