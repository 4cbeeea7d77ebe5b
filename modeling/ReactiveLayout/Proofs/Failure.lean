import ReactiveLayout.Proofs.Report
import ReactiveLayout.Proofs.Settlement

/-! What a failed tick leaves behind. Its queue is gone and its producers were called, but of what a user sees nothing
has changed. Only the suggestions that the recorder took before the failure linger there; until a tick resolves, they
gather in front of those of later ticks, and the tick that resolves reports against the old baseline. -/
namespace ReactiveLayout
variable {K : Type} [Scalar K]

namespace Recorder

theorem Reached.tick {l : Loop K (Recorder K)} (reached : l.solver.Reached) (pointer : Pointer K) :
    (l.tick pointer).2.solver.Reached :=
  Loop.tick_solver (Q := fun _ => True) pointer (fun _ _ _ _ _ => trivial) (fun _ _ => trivial)
    (fun s _ _ before => before.suggest s.1 s.2) (fun _ before => before.resolve) reached

theorem Reached.after {l : Loop K (Recorder K)} (reached : l.solver.Reached) (event : Loop.Event K) :
    (l.after event).solver.Reached := by
  cases event with
  | tick pointer => exact reached.tick pointer
  | queue | edit => exact reached
  | reject id => exact reached.reject id
  | force id value => exact reached.force id value

theorem Reached.run {l : Loop K (Recorder K)} (reached : l.solver.Reached) (events : List (Loop.Event K)) :
    (l.run events).solver.Reached := by
  induction events generalizing l with
  | nil => exact reached
  | cons event rest ih => exact ih (reached.after event)

end Recorder

namespace Loop
open Recorder
variable {l : Loop K (Recorder K)}

/-- What the recorder takes of the suggestions of a tick that comes to no resolution: those in front of the first that
it refuses, and none if a producer fails. -/
def taken (pointer : Pointer K) (l : Loop K (Recorder K)) : List (QuantityId × K) :=
  match (produceAll pointer l.quantities l.scheduler.producers).1 with
  | .ok values => (values ++ l.scheduler.pending).takeWhile fun s => (l.solver.suggest s.1 s.2).1.isOk
  | .error _ => []

def takenOn (l : Loop K (Recorder K)) : Event K → List (QuantityId × K)
  | .tick pointer => l.taken pointer
  | .queue .. | .edit _ | .reject _ | .force .. => []

def gathered (l : Loop K (Recorder K)) : List (Event K) → List (QuantityId × K)
  | [] => []
  | event :: rest => l.takenOn event ++ (l.after event).gathered rest

theorem taken_of_refused {pointer : Pointer K} {values taken rest : List (QuantityId × K)}
    {producers : List (QuantityId × Producer K)} {id : QuantityId} {value : K} {e : SolverError K}
    (produced : produceAll pointer l.quantities l.scheduler.producers = (.ok values, producers))
    (suggestions : values ++ l.scheduler.pending = taken ++ (id, value) :: rest)
    (accepted : ∀ s ∈ taken, (l.solver.suggest s.1 s.2).1 = .ok ()) (refused : (l.solver.suggest id value).1 = .error e) :
    l.taken pointer = taken := by
  have accepts : ∀ s ∈ taken, (l.solver.suggest s.1 s.2).1.isOk = true := fun s member => by
    rw [accepted s member]
    rfl
  rw [Loop.taken, produced]
  dsimp only
  rw [suggestions, List.takeWhile_append_of_pos accepts, List.takeWhile_cons_of_neg, List.append_nil]
  simp [refused, Except.isOk, Except.toBool]

/-- Nothing was resolved between two loops, and the recorder has taken some suggestions. -/
structure Lingers (l after : Loop K (Recorder K)) (suggestions : List (QuantityId × K)) : Prop where
  tolerance : after.scheduler.tolerance = l.scheduler.tolerance
  reported : after.scheduler.reported = l.scheduler.reported
  values : after.solver.values = l.solver.values
  pending : after.solver.pending = l.solver.pending ++ suggestions

omit [Scalar K] in
theorem Lingers.refl (l : Loop K (Recorder K)) : Lingers l l [] := ⟨rfl, rfl, rfl, (List.append_nil _).symm⟩

omit [Scalar K] in
theorem Lingers.trans {middle after : Loop K (Recorder K)} {first later : List (QuantityId × K)}
    (before : Lingers l middle first) (behind : Lingers middle after later) : Lingers l after (first ++ later) where
  tolerance := behind.tolerance.trans before.tolerance
  reported := behind.reported.trans before.reported
  values := behind.values.trans before.values
  pending := by rw [behind.pending, before.pending, List.append_assoc]

/-- A tick resolves, which the record shows, or it leaves nothing but what lingers. -/
theorem tick_lingers (pointer : Pointer K) (l : Loop K (Recorder K)) :
    (l.tick pointer).2.solver.resolveCount = l.solver.resolveCount + 1 ∨
      ((l.tick pointer).2.solver.resolveCount = l.solver.resolveCount ∧ Lingers l (l.tick pointer).2 (l.taken pointer)) := by
  have ended := tick_cases pointer l
  generalize l.tick pointer = reply at ended
  cases ended with
  | stopped produced =>
    refine .inr ⟨rfl, rfl, rfl, rfl, ?_⟩
    rw [taken, produced]
    exact (List.append_nil _).symm
  | refused produced suggested =>
    obtain ⟨accepted, id, value, rest, suggestions, first, refused, rfl⟩ := suggestAll_error suggested
    refine .inr ⟨resolveCount_suggested .., rfl, rfl, rfl, ?_⟩
    rw [taken_of_refused produced suggestions first refused]
    rfl
  | idle produced queued =>
    refine .inr ⟨rfl, rfl, rfl, rfl, ?_⟩
    rw [taken, produced]
    dsimp only
    rw [queued]
    exact (List.append_nil _).symm
  | unsettled _ _ _ resolved => cases resolved
  | settled _ suggested _ resolved =>
    obtain ⟨_, rfl⟩ := suggestAll_ok suggested
    cases resolved
    exact .inl ((resolveCount_log (l.solver.suggested _ _) [.resolve]).trans
      (congrArg (· + 1) (resolveCount_suggested l.solver _ _)))

theorem after_lingers (l : Loop K (Recorder K)) (event : Event K) :
    (l.after event).solver.resolveCount = l.solver.resolveCount + 1 ∨
      ((l.after event).solver.resolveCount = l.solver.resolveCount ∧ Lingers l (l.after event) (l.takenOn event)) := by
  cases event with
  | tick pointer => exact tick_lingers pointer l
  | queue | edit | reject | force => exact .inr ⟨rfl, rfl, rfl, rfl, (List.append_nil _).symm⟩

theorem resolveCount_le_run (l : Loop K (Recorder K)) (events : List (Event K)) :
    l.solver.resolveCount ≤ (l.run events).solver.resolveCount := by
  induction events generalizing l with
  | nil => exact Nat.le_refl _
  | cons event rest ih =>
    have step : l.solver.resolveCount ≤ (l.after event).solver.resolveCount := by
      rcases after_lingers l event with counted | ⟨same, _⟩
      · exact counted ▸ Nat.le_succ _
      · exact Nat.le_of_eq same.symm
    exact Nat.le_trans step (ih (l.after event))

theorem run_lingers {events : List (Event K)}
    (unresolved : (l.run events).solver.resolveCount = l.solver.resolveCount) :
    Lingers l (l.run events) (l.gathered events) := by
  induction events generalizing l with
  | nil => exact .refl l
  | cons event rest ih =>
    have whole : ((l.after event).run rest).solver.resolveCount = l.solver.resolveCount := unresolved
    have later := resolveCount_le_run (l.after event) rest
    rcases after_lingers l event with counted | ⟨same, lingers⟩
    · omega
    · exact lingers.trans (ih (whole.trans same.symm))

/-- To a user, a loop looks as it did, and its queue is empty. -/
structure Untouched (l after : Loop K (Recorder K)) : Prop where
  quantities : after.quantities = l.quantities
  reported : after.scheduler.reported = l.scheduler.reported
  ticks : after.scheduler.ticks = l.scheduler.ticks
  values : ∀ id, Solver.value? after.solver id = Solver.value? l.solver id
  adjustable : ∀ id, Solver.isAdjustable after.solver id = Solver.isAdjustable l.solver id
  queue : after.scheduler.pending = []

theorem untouched_of_failed {pointer : Pointer K} {e : LayoutError K} (failed : (l.tick pointer).1 = .error e) :
    Untouched l (l.tick pointer).2 ∧ (l.tick pointer).2.solver.resolveCount = l.solver.resolveCount := by
  have ended := tick_cases pointer l
  generalize l.tick pointer = reply at ended failed
  cases ended with
  | stopped => exact ⟨⟨rfl, rfl, rfl, fun _ => rfl, fun _ => rfl, rfl⟩, rfl⟩
  | refused _ suggested =>
    obtain ⟨_, _, _, _, _, _, _, rfl⟩ := suggestAll_error suggested
    exact ⟨⟨rfl, rfl, rfl, fun _ => rfl, fun _ => rfl, rfl⟩, resolveCount_suggested ..⟩
  | unsettled _ _ _ resolved => cases resolved
  | idle | settled => cases failed

/-- What the tick that resolves reports after a loop and some suggestions that lingered since. -/
structure Reports (l : Loop K (Recorder K)) (suggestions : List (QuantityId × K)) (before : Loop K (Recorder K))
    (reply : Reply (LayoutError K) (ChangeSet K) (Loop K (Recorder K))) : Prop where
  /-- Exactly the quantities that have moved from what the loop had as reported. -/
  changes : reply.1 = .ok ⟨moves l.scheduler.tolerance (Solver.value? reply.2.solver) l.scheduler.baseline before.quantities⟩
  /-- What lingered counts like a suggestion of the tick itself, in front of them. -/
  values : ∀ id old, Solver.value? l.solver id = some old → Solver.value? reply.2.solver id =
    some ((before.solver.forced.lookup id).getD ((lastFor? id (l.solver.pending ++ suggestions)).getD old))

theorem reports_of_lingers {before : Loop K (Recorder K)} {suggestions : List (QuantityId × K)} {next : Pointer K}
    (lingers : Lingers l before suggestions) (reached : before.solver.Reached) (resolved : before.Resolved next) :
    ∃ values, Answered next before.scheduler.producers values ∧
      Reports l (suggestions ++ (values ++ before.scheduler.pending)) before (before.tick next) := by
  obtain ⟨values, answered, accepted, ticked⟩ := tick_of_resolved resolved
  have settles := settles_resolved reached.sound (values ++ before.scheduler.pending) accepted
  have baseline : before.scheduler.baseline = l.scheduler.baseline := by
    funext id
    rw [Scheduler.baseline, Scheduler.baseline, lingers.reported]
  rw [ticked]
  refine ⟨values, answered, ?_, ?_⟩
  · rw [← lingers.tolerance, ← baseline]
    exact congrArg (Except.ok ∘ ChangeSet.mk) (changes_collect (before.resolved (values ++ before.scheduler.pending)))
  · intro id old known
    have registered : Solver.value? before.solver id = some old := by
      change before.solver.values.lookup id = some old
      rw [lingers.values]
      exact known
    rw [settles.solver id old registered, lingers.pending, List.append_assoc]

/-- A failed tick leaves what a user sees as it was, and an empty queue. However the loop goes on, the first tick that
resolves reports against the baseline from before the failure, and the suggestions that were taken before the failure
and since then have their part in what it reports. -/
theorem failed_tick_keeps (l : Loop K (Recorder K)) (pointer : Pointer K) (reached : l.solver.Reached)
    (e : LayoutError K) (failed : (l.tick pointer).1 = .error e) :
    let after := (l.tick pointer).2
    Untouched l after ∧ ∀ events next, (after.run events).solver.resolveCount = after.solver.resolveCount →
      (after.run events).Resolved next → ∃ values, Answered next (after.run events).scheduler.producers values ∧
        Reports l (l.taken pointer ++ after.gathered events ++ (values ++ (after.run events).scheduler.pending))
          (after.run events) ((after.run events).tick next) := by
  obtain ⟨untouched, unresolved⟩ := untouched_of_failed failed
  refine ⟨untouched, ?_⟩
  intro events next since resolved
  have first : Lingers l (l.tick pointer).2 (l.taken pointer) := by
    rcases tick_lingers pointer l with counted | ⟨_, lingers⟩
    · omega
    · exact lingers
  exact reports_of_lingers (first.trans (run_lingers since)) ((reached.tick pointer).run events) resolved

/-- A later loop with a suggestion that will be taken and one that will be refused behind it. -/
def torn : Loop Rat (Recorder Rat) where
  scheduler := { producers := [], pending := [(0, 5), (1, 6)], reported := [1, 2, 3], tolerance := 0, ticks := 1 }
  quantities := ⟨[⟨"a", 1⟩, ⟨"b", 2⟩, ⟨"c", 3⟩]⟩
  solver :=
    let r : Recorder Rat := {}
    ((((r.register 0 1 .strong).2.register 1 2 .strong).2.register 2 3 .strong).2).reject 1

theorem torn_tick_keeps :
    let after := (torn.tick ⟨0, 0⟩).2
    let before := after.run [.tick ⟨0, 0⟩, .queue 2 9]
    torn.solver.Reached ∧ (∃ e, (torn.tick ⟨0, 0⟩).1 = .error e) ∧ Untouched torn after ∧
      before.solver.resolveCount = after.solver.resolveCount ∧ before.Resolved ⟨0, 0⟩ ∧
      (∃ values, Reports torn ([(0, 5)] ++ (values ++ [(2, 9)])) before (before.tick ⟨0, 0⟩)) ∧
      (before.tick ⟨0, 0⟩).1.toOption.map (·.changes) = some [("a", 5), ("c", 9)] := by
  intro after before
  have reached : torn.solver.Reached :=
    (((Reached.fresh.register 0 1 .strong).register 1 2 .strong).register 2 3 .strong).reject 1
  obtain ⟨e, failed⟩ : ∃ e, (torn.tick ⟨0, 0⟩).1 = .error e := by
    have refused : (torn.tick ⟨0, 0⟩).1.isOk = false := by decide +kernel
    generalize (torn.tick ⟨0, 0⟩).1 = answer at refused
    cases answer with
    | error e => exact ⟨e, rfl⟩
    | ok changes => cases refused
  have since : before.solver.resolveCount = after.solver.resolveCount := by decide +kernel
  have reported : (before.tick ⟨0, 0⟩).1.toOption.map (·.changes) = some [("a", 5), ("c", 9)] := by decide +kernel
  have resolved : before.Resolved ⟨0, 0⟩ := by decide +kernel
  obtain ⟨untouched, later⟩ := failed_tick_keeps torn ⟨0, 0⟩ reached e failed
  obtain ⟨values, _, reports⟩ := later [.tick ⟨0, 0⟩, .queue 2 9] ⟨0, 0⟩ since resolved
  exact ⟨reached, ⟨e, failed⟩, untouched, since, resolved, ⟨values, reports⟩, reported⟩

end Loop
end ReactiveLayout
