import Mathlib
import ReactiveLayout.Recorder
import ReactiveLayout.Proofs.Tick

/-! What a scheduler counts as a tick. The count goes up when all suggestions are made and before the resolution, so it
has the ticks that were answered and those whose resolution failed, and no others. As the count also tells the first
tick from the later ones, a first resolution that fails is not made up for: a tick with nothing to suggest is answered
without one. The solver may be any, and may fail at any call. -/
namespace ReactiveLayout
variable {K σ : Type}

/-- A solver with a count of its resolutions, by how they ended. -/
structure Tallied (σ : Type) where
  solver : σ
  settled : Nat := 0
  failed : Nat := 0

namespace Tallied

def act (t : Tallied σ) (call : σ → σ) : Tallied σ := { t with solver := call t.solver }

def count (t : Tallied σ) : Reply (SolverError K) Unit σ → Reply (SolverError K) Unit (Tallied σ)
  | (.ok (), after) => (.ok (), { t with solver := after, settled := t.settled + 1 })
  | (.error e, after) => (.error e, { t with solver := after, failed := t.failed + 1 })

variable [Solver σ K]

instance : Solver (Tallied σ) K where
  register id initial strength t :=
    let reply := Solver.register id initial strength t.solver
    (reply.1, t.act fun _ => reply.2)
  isAdjustable t id := Solver.isAdjustable t.solver id
  suggest id value t :=
    let reply := Solver.suggest id value t.solver
    (reply.1, t.act fun _ => reply.2)
  resolve t := t.count (Solver.resolve t.solver)
  addRules rules t :=
    let reply := Solver.addRules rules t.solver
    (reply.1, t.act fun _ => reply.2)
  value? t id := Solver.value? t.solver id

theorem resolve_ok {t after : Tallied σ} (resolved : Solver.resolve t = (.ok (), after)) :
    after.settled = t.settled + 1 ∧ after.failed = t.failed := by
  change t.count (Solver.resolve t.solver) = _ at resolved
  unfold count at resolved
  split at resolved <;> cases resolved
  exact ⟨rfl, rfl⟩

theorem resolve_error {t after : Tallied σ} {e : SolverError K} (resolved : Solver.resolve t = (.error e, after)) :
    after.settled = t.settled ∧ after.failed = t.failed + 1 := by
  change t.count (Solver.resolve t.solver) = _ at resolved
  unfold count at resolved
  split at resolved <;> cases resolved
  exact ⟨rfl, rfl⟩

theorem suggestAll_eq (suggestions : List (QuantityId × K)) (t : Tallied σ) :
    Loop.suggestAll suggestions t =
      ((Loop.suggestAll suggestions t.solver).1, t.act fun _ => (Loop.suggestAll suggestions t.solver).2) := by
  induction suggestions generalizing t with
  | nil => rfl
  | cons first rest ih =>
    obtain ⟨id, value⟩ := first
    have here : Solver.suggest id value t =
        ((Solver.suggest id value t.solver).1, t.act fun _ => (Solver.suggest id value t.solver).2) := rfl
    rw [Loop.suggestAll, Loop.suggestAll, here]
    cases Solver.suggest id value t.solver with
    | mk answer after =>
      cases answer with
      | error e => rfl
      | ok =>
        dsimp only
        rw [ih]
        rfl

end Tallied

def Loop.untallied (l : Loop K (Tallied σ)) : Loop K σ := ⟨l.scheduler, l.quantities, l.solver.solver⟩

/-- What can happen to a loop. Between the ticks its table and its solver may be changed in any way. -/
inductive Happening (K σ : Type) where
  | tick (pointer : Pointer K)
  | queue (id : QuantityId) (value : K)
  | table (change : QuantityTable K → QuantityTable K)
  | solver (call : σ → σ)

def Happening.tallied : Happening K σ → Happening K (Tallied σ)
  | .tick pointer => .tick pointer
  | .queue id value => .queue id value
  | .table change => .table change
  | .solver call => .solver fun t => t.act call

/-- A loop with the number of its ticks that were answered without an error. -/
structure History (K σ : Type) where
  loop : Loop K σ
  answered : Nat := 0

namespace History

def start (producers : List (QuantityId × Producer K)) (t : QuantityTable K) (tolerance : K) (solver : σ) :
    History K σ where
  loop := ⟨.start producers t tolerance, t, solver⟩

def reply (h : History K σ) : Reply (LayoutError K) (ChangeSet K) (Loop K σ) → History K σ
  | (.ok _, loop) => ⟨loop, h.answered + 1⟩
  | (.error _, loop) => ⟨loop, h.answered⟩

variable [Scalar K] [Solver σ K]

def after (h : History K σ) : Happening K σ → History K σ
  | .tick pointer => h.reply (h.loop.tick pointer)
  | .queue id value => { h with loop := { h.loop with scheduler := h.loop.scheduler.queue id value } }
  | .table change => { h with loop := { h.loop with quantities := change h.loop.quantities } }
  | .solver call => { h with loop := { h.loop with solver := call h.loop.solver } }

def run (h : History K σ) (happenings : List (Happening K σ)) : History K σ := happenings.foldl after h

def untallied (h : History K (Tallied σ)) : History K σ := ⟨h.loop.untallied, h.answered⟩

end History

variable [Scalar K] [Solver σ K]

theorem Loop.tick_untallied (pointer : Pointer K) (l : Loop K (Tallied σ)) :
    l.untallied.tick pointer = ((l.tick pointer).1, (l.tick pointer).2.untallied) := by
  unfold tick
  have producers : produceAll pointer l.untallied.quantities l.untallied.scheduler.producers =
      produceAll pointer l.quantities l.scheduler.producers := rfl
  rw [producers]
  split
  · rfl
  · rename_i values producers produced
    have waiting : l.untallied.scheduler.pending = l.scheduler.pending := rfl
    have solver : l.untallied.solver = l.solver.solver := rfl
    have ticks : l.untallied.scheduler.ticks = l.scheduler.ticks := rfl
    simp only [waiting, solver, ticks, Tallied.suggestAll_eq]
    cases suggestAll (values ++ l.scheduler.pending) l.solver.solver with
    | mk answer between =>
      cases answer with
      | error e => rfl
      | ok =>
        dsimp only
        split
        · rfl
        · have resolves : Solver.resolve (l.solver.act fun _ => between) =
              (l.solver.act fun _ => between).count (Solver.resolve between) := rfl
          rw [resolves]
          cases Solver.resolve between with
          | mk answer after =>
            cases answer with
            | error e => rfl
            | ok => rfl

namespace History

theorem after_untallied (h : History K (Tallied σ)) (happening : Happening K σ) :
    (h.after happening.tallied).untallied = h.untallied.after happening := by
  cases happening with
  | queue | table | solver => rfl
  | tick pointer =>
    change (h.reply (h.loop.tick pointer)).untallied = h.untallied.reply (h.loop.untallied.tick pointer)
    rw [Loop.tick_untallied]
    cases h.loop.tick pointer with
    | mk answer loop => cases answer <;> rfl

theorem run_untallied (h : History K (Tallied σ)) (happenings : List (Happening K σ)) :
    (h.run (happenings.map .tallied)).untallied = h.untallied.run happenings := by
  induction happenings generalizing h with
  | nil => rfl
  | cons first rest ih =>
    change ((h.after first.tallied).run (rest.map .tallied)).untallied = (h.untallied.after first).run rest
    rw [ih, after_untallied]

/-- The invariant of the count: it has the ticks that were answered and the resolutions that failed, and is zero until a
resolution has ended in one way or the other. -/
structure Tallies (h : History K (Tallied σ)) : Prop where
  ticks : h.loop.scheduler.ticks = h.answered + h.loop.solver.failed
  resolved : h.loop.scheduler.ticks ≠ 0 → 0 < h.loop.solver.settled + h.loop.solver.failed

theorem Tallies.tick {h : History K (Tallied σ)} (tallies : h.Tallies) (pointer : Pointer K) :
    (h.after (.tick pointer)).Tallies := by
  obtain ⟨ticks, resolved⟩ := tallies
  have ended := Loop.tick_cases pointer h.loop
  change (h.reply (h.loop.tick pointer)).Tallies
  generalize h.loop.tick pointer = outcome at ended
  -- Until the resolution nothing is counted.
  have asked {values : List (QuantityId × K)} {answer : Except (SolverError K) Unit} {solver : Tallied σ}
      (suggested : Loop.suggestAll values h.loop.solver = (answer, solver)) :
      ∃ inner, solver = h.loop.solver.act fun _ => inner := by
    rw [Tallied.suggestAll_eq] at suggested
    exact ⟨_, (congrArg Prod.snd suggested).symm⟩
  cases ended with
  | stopped => exact ⟨ticks, resolved⟩
  | refused _ suggested =>
    obtain ⟨inner, rfl⟩ := asked suggested
    exact ⟨ticks, resolved⟩
  | idle _ _ later =>
    refine ⟨?_, fun _ => resolved later⟩
    change h.loop.scheduler.ticks + 1 = h.answered + 1 + h.loop.solver.failed
    omega
  | @unsettled _ _ _ _ after _ suggested _ balked =>
    obtain ⟨inner, rfl⟩ := asked suggested
    obtain ⟨_, failed⟩ := Tallied.resolve_error balked
    change after.failed = h.loop.solver.failed + 1 at failed
    refine ⟨?_, fun _ => ?_⟩
    · change h.loop.scheduler.ticks + 1 = h.answered + after.failed
      omega
    · change 0 < after.settled + after.failed
      omega
  | @settled _ _ _ after _ suggested _ through =>
    obtain ⟨inner, rfl⟩ := asked suggested
    obtain ⟨settled, failed⟩ := Tallied.resolve_ok through
    change after.settled = h.loop.solver.settled + 1 at settled
    change after.failed = h.loop.solver.failed at failed
    refine ⟨?_, fun _ => ?_⟩
    · change h.loop.scheduler.ticks + 1 = h.answered + 1 + after.failed
      omega
    · change 0 < after.settled + after.failed
      omega

theorem Tallies.after {h : History K (Tallied σ)} (tallies : h.Tallies) (happening : Happening K σ) :
    (h.after happening.tallied).Tallies := by
  cases happening with
  | tick pointer => exact tallies.tick pointer
  | queue | table | solver => exact ⟨tallies.ticks, tallies.resolved⟩

theorem Tallies.run {h : History K (Tallied σ)} (tallies : h.Tallies) (happenings : List (Happening K σ)) :
    (h.run (happenings.map .tallied)).Tallies := by
  induction happenings generalizing h with
  | nil => exact tallies
  | cons first rest ih => exact ih (tallies.after first)

end History

/-- Whatever the solver does, the count of ticks has those that were answered and those whose resolution failed. So it is
that of the answered ticks exactly as long as no resolution has failed, and so long no tick is answered before a
resolution has come through. -/
theorem ticks_counted (producers : List (QuantityId × Producer K)) (t : QuantityTable K) (tolerance : K) (solver : σ)
    (happenings : List (Happening K σ)) :
    let h := (History.start producers t tolerance (⟨solver, 0, 0⟩ : Tallied σ)).run (happenings.map .tallied)
    h.untallied = (History.start producers t tolerance solver).run happenings ∧
      h.loop.scheduler.ticks = h.answered + h.loop.solver.failed ∧
      (h.loop.scheduler.ticks = h.answered ↔ h.loop.solver.failed = 0) ∧
      (h.loop.solver.failed = 0 → h.answered ≠ 0 → h.loop.solver.settled ≠ 0) := by
  have fresh : (History.start producers t tolerance (⟨solver, 0, 0⟩ : Tallied σ)).Tallies :=
    ⟨rfl, fun counted => absurd rfl counted⟩
  obtain ⟨ticks, resolved⟩ := fresh.run happenings
  refine ⟨History.run_untallied _ happenings, ticks, by omega, fun faultless answered => ?_⟩
  have some := resolved (by omega)
  omega

/-- A recorder that fails to resolve some times before it does. -/
structure Reluctant (K : Type) where
  recorder : Recorder K := {}
  refusals : Nat

namespace Reluctant

def relay {α : Type} (r : Reluctant K) (reply : Reply (SolverError K) α (Recorder K)) :
    Reply (SolverError K) α (Reluctant K) :=
  (reply.1, { r with recorder := reply.2 })

instance : Solver (Reluctant K) K where
  register id initial strength r := r.relay (r.recorder.register id initial strength)
  isAdjustable r id := Solver.isAdjustable r.recorder id
  suggest id value r := r.relay (r.recorder.suggest id value)
  resolve r :=
    match r.refusals with
    | 0 => r.relay r.recorder.resolve
    | left + 1 => (.error .unbounded, { r with refusals := left })
  addRules rules r := r.relay (r.recorder.addRules rules)
  value? r id := Solver.value? r.recorder id

end Reluctant

/-- One suggestion, between the second tick and the third. -/
def nudged (σ : Type) : List (Happening Rat σ) := [.tick ⟨0, 0⟩, .tick ⟨0, 0⟩, .queue 0 5, .tick ⟨0, 0⟩]

/-- The run of `nudged` on a solver that takes the suggestion. -/
def nudge {σ : Type} [Solver σ Rat] (solver : σ) : History Rat (Tallied σ) :=
  (History.start [] ⟨[⟨"width", 1⟩]⟩ 0 (⟨solver, 0, 0⟩ : Tallied σ)).run ((nudged σ).map .tallied)

/-- A recorder that knows the quantity. -/
def nudgeable : Recorder Rat := { values := [(0, 1)] }

/-- A solver that always resolves, and one that at first does not: there the third tick is the first to resolve, and the
second is answered before. -/
theorem ticks_counted_nudge :
    ((nudge nudgeable).loop.solver.failed = 0 ∧ (nudge nudgeable).answered ≠ 0 ∧
      (nudge nudgeable).loop.solver.settled ≠ 0) ∧
    (nudge (Reluctant.mk nudgeable 1)).loop.scheduler.ticks = 3 ∧ (nudge (Reluctant.mk nudgeable 1)).answered = 2 ∧
      (nudge (Reluctant.mk nudgeable 1)).loop.solver.failed = 1 ∧
      (nudge (Reluctant.mk nudgeable 1)).loop.scheduler.ticks =
        (nudge (Reluctant.mk nudgeable 1)).answered + (nudge (Reluctant.mk nudgeable 1)).loop.solver.failed := by
  have faultless : (nudge nudgeable).loop.solver.failed = 0 := by cbv
  have three : (nudge nudgeable).answered = 3 := by cbv
  have answered : (nudge nudgeable).answered ≠ 0 := by omega
  obtain ⟨_, _, _, resolved⟩ := ticks_counted [] ⟨[⟨"width", 1⟩]⟩ 0 nudgeable (nudged (Recorder Rat))
  obtain ⟨_, counted, _⟩ := ticks_counted [] ⟨[⟨"width", 1⟩]⟩ 0 (Reluctant.mk nudgeable 1) (nudged (Reluctant Rat))
  exact ⟨⟨faultless, answered, resolved faultless answered⟩, by cbv, by cbv, by cbv, counted⟩

/-- Neither is sure with a solver that may fail to resolve: that the count is of answered ticks only, or that a tick is
answered only after a resolution. -/
theorem unresolved_tick_counted :
    let h (σ : Type) [Solver σ Float] (solver : σ) (happenings : List (Happening Float σ)) :=
      (History.start [] .empty 0 (⟨solver, 0, 0⟩ : Tallied σ)).run (happenings.map .tallied)
    (¬ ∀ (σ : Type) [Solver σ Float] (solver : σ) happenings,
      (h σ solver happenings).loop.scheduler.ticks = (h σ solver happenings).answered) ∧
    ¬ ∀ (σ : Type) [Solver σ Float] (solver : σ) happenings,
      (h σ solver happenings).answered ≠ 0 → (h σ solver happenings).loop.solver.settled ≠ 0 := by
  constructor
  · intro always
    have counted := always (Reluctant Float) { refusals := 1 } [.tick ⟨0, 0⟩, .tick ⟨0, 0⟩]
    revert counted
    decide
  · intro always
    exact always (Reluctant Float) { refusals := 1 } [.tick ⟨0, 0⟩, .tick ⟨0, 0⟩] (by decide) rfl

end ReactiveLayout
