import ReactiveLayout.Proofs.Commands
import ReactiveLayout.Proofs.Mirror

/-! The tolerance of a layout decides what is reported and nothing else. Two layouts that differ in their tolerances,
and hence in what they have reported so far, go the same way step by step: what a settling makes of the table does not
depend on either. -/
namespace ReactiveLayout
variable {K σ : Type} [Scalar K]

namespace Loop

/-- Equal up to the tolerance and what was reported. -/
structure Alike (l m : Loop K σ) : Prop where
  quantities : l.quantities = m.quantities
  solver : l.solver = m.solver
  producers : l.scheduler.producers = m.scheduler.producers
  pending : l.scheduler.pending = m.scheduler.pending
  ticks : l.scheduler.ticks = m.scheduler.ticks

theorem settle_entries_eq (tolerance other : K) (values : QuantityId → Option K) (id : QuantityId)
    (entries : List (Quantity K)) (reported baselines : List K) :
    (settle tolerance values id entries reported).entries = (settle other values id entries baselines).entries := by
  apply List.ext_getElem?
  intro i
  rw [getElem?_settle, getElem?_settle]

variable [Solver σ K] {l m : Loop K σ}

theorem Alike.collect (alike : Alike l m) : Alike l.collect.2 m.collect.2 where
  quantities := by
    simp only [Loop.collect, alike.quantities, alike.solver]
    rw [settle_entries_eq]
  solver := alike.solver
  producers := alike.producers
  pending := alike.pending
  ticks := alike.ticks

theorem Alike.tick (alike : Alike l m) (pointer : Pointer K) :
    (l.tick pointer).1.map (fun _ => ()) = (m.tick pointer).1.map (fun _ => ()) ∧
      Alike (l.tick pointer).2 (m.tick pointer).2 := by
  obtain ⟨quantities, solver, producers, pending, ticks⟩ := alike
  simp only [Loop.tick, quantities, solver, producers, pending, ticks]
  generalize produceAll pointer m.quantities m.scheduler.producers = produced
  obtain ⟨answer, called⟩ := produced
  cases answer with
  | error e => exact ⟨rfl, rfl, rfl, rfl, rfl, rfl⟩
  | ok values =>
    dsimp only
    generalize suggestAll (values ++ m.scheduler.pending) m.solver = suggested
    obtain ⟨answer, between⟩ := suggested
    cases answer with
    | error e => exact ⟨rfl, rfl, rfl, rfl, rfl, rfl⟩
    | ok =>
      dsimp only
      split
      · exact ⟨rfl, rfl, rfl, rfl, rfl, rfl⟩
      · generalize Solver.resolve between = resolved
        obtain ⟨answer, after⟩ := resolved
        cases answer with
        | error e => exact ⟨rfl, rfl, rfl, rfl, rfl, rfl⟩
        | ok => exact ⟨rfl, Alike.collect ⟨rfl, rfl, rfl, rfl, rfl⟩⟩

end Loop

namespace Layout

structure Alike (s t : Layout K σ) : Prop where
  loop : s.toLoop.Alike t.toLoop
  formulas : s.formulas = t.formulas
  prebuilt : s.prebuilt = t.prebuilt

/-- Everything but the contents of change sets that two layouts show: the solver with all that it keeps a record of,
the values by name, the queue, and the completed ticks. -/
structure Shows (s t : Layout K σ) : Prop where
  solver : s.solver = t.solver
  snapshot : s.snapshot = t.snapshot
  formulas : s.formulaValue? = t.formulaValue?
  pending : s.scheduler.pending = t.scheduler.pending
  ticks : s.scheduler.ticks = t.scheduler.ticks

theorem Alike.shows {s t : Layout K σ} (alike : Alike s t) : Shows s t where
  solver := alike.loop.solver
  snapshot := congrArg QuantityTable.snapshot alike.loop.quantities
  formulas := by
    funext name
    simp only [formulaValue?, alike.formulas, alike.prebuilt, alike.loop.quantities]
  pending := alike.loop.pending
  ticks := alike.loop.ticks

variable [Solver σ K]

/-- How an action ends, without the contents of a change set. -/
def outcome (s : Layout K σ) : Action K σ → Except (LayoutError K) Unit
  | .command (.tick pointer) => (s.tick pointer).1.map fun _ => ()
  | .command (.tickInto pointer) => (s.tickInto pointer).1.1.map fun _ => ()
  | .command (.suggest name value) => (s.suggest name value).1
  | .solver _ => .ok ()

theorem Alike.perform {s t : Layout K σ} (alike : Alike s t) (action : Action K σ) :
    s.outcome action = t.outcome action ∧ Alike (s.perform action) (t.perform action) := by
  obtain ⟨loop, formulas, prebuilt⟩ := alike
  cases action with
  | command command =>
    cases command with
    | tick pointer =>
      obtain ⟨same, ticked⟩ := loop.tick pointer
      exact ⟨same, ticked, formulas, prebuilt⟩
    | tickInto pointer =>
      obtain ⟨same, ticked⟩ := loop.tick pointer
      have counted (answer : Except (LayoutError K) (ChangeSet K)) :
          (answer.map (·.size)).map (fun _ => ()) = answer.map fun _ => () := by
        cases answer <;> rfl
      exact ⟨(counted _).trans (same.trans (counted _).symm), ticked, formulas, prebuilt⟩
    | suggest name value =>
      obtain ⟨quantities, solver, producers, pending, ticks⟩ := loop
      simp only [outcome, Layout.perform, Layout.obey, Layout.suggest, quantities]
      cases t.quantities.id? name with
      | none => exact ⟨rfl, ⟨quantities, solver, producers, pending, ticks⟩, formulas, prebuilt⟩
      | some id =>
        dsimp only
        split
        · refine ⟨rfl, ⟨rfl, solver, producers, ?_, ticks⟩, formulas, prebuilt⟩
          exact congrArg (Scheduler.enqueue id value) pending
        · exact ⟨rfl, ⟨quantities, solver, producers, pending, ticks⟩, formulas, prebuilt⟩
  | solver call =>
    obtain ⟨quantities, solver, producers, pending, ticks⟩ := loop
    exact ⟨rfl, ⟨quantities, congrArg call solver, producers, pending, ticks⟩, formulas, prebuilt⟩

theorem Alike.performAll {s t : Layout K σ} (alike : Alike s t) (actions : List (Action K σ)) :
    Alike (s.performAll actions) (t.performAll actions) := by
  induction actions generalizing s t with
  | nil => exact alike
  | cons action rest ih => exact ih (alike.perform action).2

/-- Two builds cannot be told apart: both fail for the same reason, or both come to a layout, and then the two show the
same after any actions and the next action, whatever it is, ends the same way. -/
inductive Indistinct : Except (LayoutError K) (Layout K σ) → Except (LayoutError K) (Layout K σ) → Prop where
  | failed (e : LayoutError K) : Indistinct (.error e) (.error e)
  | built {s t : Layout K σ} (shows : ∀ actions, Shows (s.performAll actions) (t.performAll actions))
      (ends : ∀ actions action, (s.performAll actions).outcome action = (t.performAll actions).outcome action) :
      Indistinct (.ok s) (.ok t)

/-- Whatever happens to a layout from its build on, its tolerance makes no difference but in the change sets. -/
theorem tolerance_only_filters (spec : Specification K) (settings : Settings K) (tolerance : K) (solver : σ)
    (valid : settings.validate = .ok ()) (validToo : { settings with changeTolerance := tolerance }.validate = .ok ()) :
    Indistinct (build spec settings solver) (build spec { settings with changeTolerance := tolerance } solver) := by
  simp only [build, valid, validToo]
  generalize Compilation.compile spec ⟨settings.editStrength, settings.registerRules⟩ solver = reply
  obtain ⟨answer, after⟩ := reply
  cases answer with
  | error e => exact .failed _
  | ok c =>
    have start : Alike (started settings c after) (started { settings with changeTolerance := tolerance } c after) :=
      ⟨⟨rfl, rfl, rfl, rfl, rfl⟩, rfl, rfl⟩
    exact .built (fun actions => (start.performAll actions).shows)
      fun actions action => ((start.performAll actions).perform action).1

theorem followed_tolerance_only_filters :
    (∃ s, build Watched.followed Watched.coarse ({} : Recorder Rat) = .ok s) ∧
      Indistinct (build Watched.followed Watched.coarse ({} : Recorder Rat))
        (build Watched.followed { Watched.coarse with changeTolerance := 3 } ({} : Recorder Rat)) :=
  ⟨Watched.followed_builds, tolerance_only_filters _ _ _ _ (by cbv) (by cbv)⟩

end Layout
end ReactiveLayout
