import ReactiveLayout.Proofs.Overheard
import ReactiveLayout.Proofs.Settlement
import ReactiveLayout.Proofs.Stillness
import ReactiveLayout.Proofs.Upkeep

/-! A tick with nothing to suggest does not resolve. Here it is compared with one that always does, over whole runs on a
recorder. The two cannot be told apart, unless a failed tick has left suggestions that an idle one comes upon, or a
quantity is forced to a value that counts as moved from itself. -/
namespace ReactiveLayout
variable {K : Type} [Scalar K]

namespace Recorder
variable {tolerance : K} {r : Recorder K}

/-- All values that a recorder shows, has pending or forces rest. -/
structure Calm (tolerance : K) (r : Recorder K) : Prop where
  values : ∀ id value, r.values.lookup id = some value → Loop.Rests tolerance value
  pending : ∀ s ∈ r.pending, Loop.Rests tolerance s.2
  forced : ∀ f ∈ r.forced, Loop.Rests tolerance f.2

theorem Calm.register (calm : r.Calm tolerance) (id : QuantityId) {initial : K} (rests : Loop.Rests tolerance initial)
    (strength : Strength) : (r.register id initial strength).2.Calm tolerance := by
  have written (other : QuantityId) (value : K) (known : (r.values.set id initial).lookup other = some value) :
      Loop.Rests tolerance value := by
    by_cases here : other = id
    · rw [here, ValueMap.lookup_set_self] at known
      exact Option.some.inj known ▸ rests
    · rw [ValueMap.lookup_set_ne initial r.values here] at known
      exact calm.values other value known
  unfold Recorder.register
  dsimp only
  split
  · exact ⟨calm.values, calm.pending, calm.forced⟩
  · split
    · exact ⟨written, calm.pending, calm.forced⟩
    · exact ⟨written, calm.pending, calm.forced⟩

theorem Calm.suggest (calm : r.Calm tolerance) (id : QuantityId) {value : K} (rests : Loop.Rests tolerance value) :
    (r.suggest id value).2.Calm tolerance := by
  unfold Recorder.suggest
  dsimp only
  split
  · exact ⟨calm.values, calm.pending, calm.forced⟩
  · split
    · exact ⟨calm.values, calm.pending, calm.forced⟩
    · refine ⟨calm.values, ?_, calm.forced⟩
      intro s member
      rcases List.mem_append.mp member with old | new
      · exact calm.pending s old
      · obtain rfl := List.mem_singleton.mp new
        exact rests

theorem Calm.resolve (calm : r.Calm tolerance) : r.resolve.2.Calm tolerance := by
  refine ⟨?_, fun _ member => (nomatch member), calm.forced⟩
  intro id value known
  rw [lookup_resolve] at known
  obtain ⟨asked, found, rfl⟩ := Option.map_eq_some_iff.mp known
  cases forces : lastFor? id r.forced with
  | some value => exact calm.forced _ (mem_of_lastFor? forces)
  | none =>
    cases last : lastFor? id r.pending with
    | some value =>
      rw [last] at found
      exact Option.some.inj found ▸ calm.pending _ (mem_of_lastFor? last)
    | none =>
      rw [last] at found
      exact calm.values id asked found

def Calmly (tolerance : K) (r t : Recorder K) : Prop := r = t ∧ t.Calm tolerance

theorem calmly_simulates (rests : ∀ value : K, Scalar.isFinite value = true → Loop.Rests tolerance value) :
    Solver.Simulates (Calmly tolerance) where
  register := by
    rintro id initial strength r _ finite ⟨rfl, calm⟩
    exact ⟨rfl, rfl, calm.register id (rests initial finite) strength⟩
  suggest := by
    rintro id value r _ finite ⟨rfl, calm⟩
    exact ⟨rfl, rfl, calm.suggest id (rests value finite)⟩
  resolve := by
    rintro r _ ⟨rfl, calm⟩
    exact ⟨rfl, rfl, calm.resolve⟩
  addRules := by
    rintro rules r _ _ ⟨rfl, calm⟩
    exact ⟨rfl, rfl, calm.values, calm.pending, calm.forced⟩
  value? := by
    rintro r _ ⟨rfl, _⟩
    rfl

end Recorder

namespace Loop
open Recorder

section
variable {σ : Type} [Solver σ K]

/-- The tick from here has no producer to call and nothing queued, and it is not the first. -/
def Idle (l : Loop K σ) : Prop :=
  l.scheduler.producers = [] ∧ l.scheduler.pending = [] ∧ l.scheduler.ticks ≠ 0

instance (l : Loop K σ) : Decidable l.Idle :=
  decidable_of_iff (l.scheduler.producers.isEmpty ∧ l.scheduler.pending.isEmpty ∧ l.scheduler.ticks ≠ 0) <| by
    rw [Idle, List.isEmpty_iff, List.isEmpty_iff]

/-- A tick that resolves even with nothing to suggest. -/
def tickEagerly (pointer : Pointer K) (l : Loop K σ) : Reply (LayoutError K) (ChangeSet K) (Loop K σ) :=
  match produceAll pointer l.quantities l.scheduler.producers with
  | (.error e, producers) => (.error e, { l with scheduler := { l.scheduler with producers, pending := [] } })
  | (.ok produced, producers) =>
    let scheduler := { l.scheduler with producers, pending := [] }
    match suggestAll (produced ++ l.scheduler.pending) l.solver with
    | (.error e, solver) => (.error (.solver e), { l with scheduler, solver })
    | (.ok (), solver) =>
      let completed := { scheduler with ticks := scheduler.ticks + 1 }
      match Solver.resolve solver with
      | (.error e, solver) => (.error (.solver e), { l with scheduler := completed, solver })
      | (.ok (), solver) =>
        let (changes, l) := collect { l with scheduler := completed, solver }
        (.ok changes, l)

theorem tickEagerly_of_busy {l : Loop K σ} (busy : ¬ l.Idle) (pointer : Pointer K) :
    l.tickEagerly pointer = l.tick pointer := by
  unfold tickEagerly tick
  cases produced : produceAll pointer l.quantities l.scheduler.producers with
  | mk answer producers =>
    cases answer with
    | error e => rfl
    | ok values =>
      have work : ¬ ((values ++ l.scheduler.pending).isEmpty && l.scheduler.ticks != 0) = true := by
        intro quiet
        obtain ⟨nothing, later⟩ : (values = [] ∧ l.scheduler.pending = []) ∧ l.scheduler.ticks ≠ 0 := by
          simpa using quiet
        have answered := (produceAll_ok produced).1
        rw [nothing.1] at answered
        exact busy ⟨List.forall₂_nil_right_iff.mp answered, nothing.2, later⟩
      dsimp only
      generalize suggestAll (values ++ l.scheduler.pending) l.solver = asked
      obtain ⟨answer, solver⟩ := asked
      cases answer with
      | error e => rfl
      | ok => exact (if_neg work).symm

end

variable {l m : Loop K (Recorder K)}

theorem tick_of_idle (idle : l.Idle) (pointer : Pointer K) :
    l.tick pointer = (.ok .empty, l.called [] (l.scheduler.ticks + 1) l.solver) := by
  obtain ⟨producers, queued, later⟩ := idle
  unfold tick
  simp only [producers, queued, produceAll, suggestAll, List.append_nil, List.isEmpty_nil, Bool.true_and, bne_iff_ne]
  rw [if_pos later]
  simp only [called]

theorem tickEagerly_of_idle (idle : l.Idle) (pointer : Pointer K) :
    l.tickEagerly pointer = (.ok (l.called [] (l.scheduler.ticks + 1) l.solver.resolve.2).collect.1,
      (l.called [] (l.scheduler.ticks + 1) l.solver.resolve.2).collect.2) := by
  obtain ⟨producers, queued, _⟩ := idle
  unfold tickEagerly
  rw [producers, queued]
  rfl

omit [Scalar K] in
theorem Twins.trans {n : Loop K (Recorder K)} (first : Twins l m) (second : Twins m n) : Twins l n where
  scheduler := first.scheduler.trans second.scheduler
  quantities := first.quantities.trans second.quantities
  solver := ⟨fun id => (first.solver.values id).trans (second.solver.values id),
    first.solver.pending.trans second.solver.pending, first.solver.forced.trans second.solver.forced,
    first.solver.rejected.trans second.solver.rejected⟩

theorem Twins.tickEagerly (twins : Twins l m) (pointer : Pointer K) :
    (l.tickEagerly pointer).1 = (m.tickEagerly pointer).1 ∧ Twins (l.tickEagerly pointer).2 (m.tickEagerly pointer).2 := by
  have same : l.Idle ↔ m.Idle := by rw [Idle, Idle, twins.scheduler]
  by_cases idle : l.Idle
  · rw [tickEagerly_of_idle idle, tickEagerly_of_idle (same.mp idle)]
    have resolved : Twins (l.called [] (l.scheduler.ticks + 1) l.solver.resolve.2)
        (m.called [] (m.scheduler.ticks + 1) m.solver.resolve.2) := by
      refine ⟨?_, twins.quantities, twins.solver.resolve⟩
      simp only [called, twins.scheduler]
    obtain ⟨answer, after⟩ := resolved.collect
    exact ⟨congrArg Except.ok answer, after⟩
  · rw [tickEagerly_of_busy idle, tickEagerly_of_busy (mt same.mpr idle)]
    exact twins.tick pointer

/-- Once settled, values that rest settle again without a change. -/
theorem settle_settle {tolerance : K} {values : QuantityId → Option K}
    (rests : ∀ id value, values id = some value → Rests tolerance value) (id : QuantityId) (entries : List (Quantity K))
    (reported : List K) :
    let settled := settle tolerance values id entries reported
    settle tolerance values id settled.entries settled.reported = ⟨settled.entries, settled.reported, []⟩ := by
  induction entries generalizing id reported with
  | nil => rfl
  | cons q rest ih =>
    have later := ih (id + 1) reported.tail
    dsimp only at later ⊢
    rcases settle_cons tolerance values id q rest reported with
      ⟨unknown, same⟩ | ⟨value, known, far, same⟩ | ⟨value, known, near, same⟩
    · rw [same]
      simp only [settle, unknown, List.headD_cons, List.tail_cons, later]
    · rw [same]
      -- What was reported is its own baseline from now on, so this is where a value has to rest.
      have still : moved tolerance value value = false := rests id value known
      simp only [settle, known, List.headD_cons, List.tail_cons, later, still, Bool.false_eq_true, if_false]
    · rw [same]
      simp only [settle, known, List.headD_cons, List.tail_cons, later, near, Bool.false_eq_true, if_false]

/-- Another resolution would change nothing, if nothing is pending. -/
structure Still (l : Loop K (Recorder K)) : Prop where
  forced : ∀ id value, l.solver.values.lookup id = some value → (lastFor? id l.solver.forced).getD value = value
  settled : settle l.scheduler.tolerance (Solver.value? l.solver) 0 l.quantities.entries l.scheduler.reported =
    ⟨l.quantities.entries, l.scheduler.reported, []⟩

theorem Still.tickEagerly (still : l.Still) (nothing : l.solver.pending = []) (idle : l.Idle) (pointer : Pointer K) :
    (l.tickEagerly pointer).1 = (l.tick pointer).1 ∧ Twins (l.tickEagerly pointer).2 (l.tick pointer).2 := by
  rw [tickEagerly_of_idle idle, tick_of_idle idle]
  have resolved : Twins (l.called [] (l.scheduler.ticks + 1) l.solver.resolve.2)
      (l.called [] (l.scheduler.ticks + 1) l.solver) := ⟨rfl, rfl, twins_resolve nothing still.forced⟩
  have settled : (l.called [] (l.scheduler.ticks + 1) l.solver).collect =
      (.empty, l.called [] (l.scheduler.ticks + 1) l.solver) := by
    unfold collect
    dsimp only [called]
    rw [still.settled]
    rfl
  obtain ⟨answer, after⟩ := resolved.collect
  rw [settled] at answer after
  exact ⟨congrArg Except.ok answer, after⟩

/-- The invariant of a run: whatever was settled last is still settled, and only values that rest are on their way. -/
structure Poised (l : Loop K (Recorder K)) : Prop where
  calm : Loop.Related (Calmly l.scheduler.tolerance) l l
  still : l.scheduler.ticks ≠ 0 → l.Still

theorem Poised.tick (rests : ∀ value : K, Scalar.isFinite value = true → Rests l.scheduler.tolerance value)
    (poised : l.Poised) (pointer : Pointer K) : (l.tick pointer).2.Poised := by
  obtain ⟨calm, still⟩ := poised
  have related := (calm.tick (calmly_simulates rests) pointer).2
  have ended := tick_cases pointer l
  generalize l.tick pointer = reply at ended related
  cases ended with
  | stopped => exact ⟨related, fun later => ⟨(still later).forced, (still later).settled⟩⟩
  | refused _ suggested =>
    obtain ⟨_, _, _, _, _, _, _, rfl⟩ := suggestAll_error suggested
    exact ⟨related, fun later => ⟨(still later).forced, (still later).settled⟩⟩
  | idle _ _ later => exact ⟨related, fun _ => ⟨(still later).forced, (still later).settled⟩⟩
  | unsettled _ _ _ resolved => cases resolved
  | settled _ _ _ resolved =>
    cases resolved
    exact ⟨related, fun _ => ⟨forced_resolve _, settle_settle related.solver.2.values _ _ _⟩⟩

theorem tolerance_tick (pointer : Pointer K) (l : Loop K (Recorder K)) :
    (l.tick pointer).2.scheduler.tolerance = l.scheduler.tolerance := by
  have ended := tick_cases pointer l
  generalize l.tick pointer = reply at ended
  cases ended <;> rfl

/-- One tick of each kind, from loops that agree. -/
theorem Poised.tickEagerly (poised : l.Poised) (clear : l.Idle → l.solver.pending = []) (twins : Twins m l)
    (pointer : Pointer K) :
    (m.tickEagerly pointer).1 = (l.tick pointer).1 ∧ Twins (m.tickEagerly pointer).2 (l.tick pointer).2 := by
  obtain ⟨answer, after⟩ := twins.tickEagerly pointer
  by_cases idle : l.Idle
  · obtain ⟨same, left⟩ := (poised.still idle.2.2).tickEagerly (clear idle) idle pointer
    exact ⟨answer.trans same, after.trans left⟩
  · rw [tickEagerly_of_busy idle] at answer after
    exact ⟨answer, after⟩

end Loop

namespace Layout

section
variable {σ : Type} [Solver σ K]

def tickEagerly (pointer : Pointer K) (s : Layout K σ) : Reply (LayoutError K) (ChangeSet K) (Layout K σ) :=
  let (answer, loop) := s.toLoop.tickEagerly pointer
  (answer, { s with toLoop := loop })

/-- What a command shows: its answer, which for a suggestion holds no changes, and the snapshot after it. -/
structure Seen (K : Type) where
  answer : Except (LayoutError K) (Option (ChangeSet K))
  snapshot : NameTable K

/-- All that a run shows on one kind of tick. What a surface is given hangs on the answer of its tick. -/
def replay (tick : Pointer K → Layout K σ → Reply (LayoutError K) (ChangeSet K) (Layout K σ)) (s : Layout K σ) :
    List (Command K) → List (Seen K)
  | [] => []
  | .tick pointer :: rest | .tickInto pointer :: rest =>
    ⟨(tick pointer s).1.map some, (tick pointer s).2.snapshot⟩ :: (tick pointer s).2.replay tick rest
  | .suggest name value :: rest =>
    ⟨(s.suggest name value).1.map fun _ => none, (s.suggest name value).2.snapshot⟩ ::
      (s.suggest name value).2.replay tick rest

end

variable {s t : Layout K (Recorder K)}

/-- Over a run, an idle tick finds the recorder without suggestions that an earlier tick has left there. -/
def Clear (s : Layout K (Recorder K)) : List (Command K) → Prop
  | [] => True
  | .tick pointer :: rest | .tickInto pointer :: rest =>
    (s.toLoop.Idle → s.solver.pending = []) ∧ (s.tick pointer).2.Clear rest
  | .suggest name value :: rest => (s.suggest name value).2.Clear rest

instance decidableClear (s : Layout K (Recorder K)) : (commands : List (Command K)) → Decidable (s.Clear commands)
  | [] => inferInstanceAs (Decidable True)
  | .tick pointer :: rest | .tickInto pointer :: rest =>
    have := decidableClear (s.tick pointer).2 rest
    inferInstanceAs (Decidable ((s.toLoop.Idle → s.solver.pending = []) ∧ (s.tick pointer).2.Clear rest))
  | .suggest name value :: rest => decidableClear (s.suggest name value).2 rest

theorem poised_suggest (poised : s.toLoop.Poised) (name : String) (value : K) :
    (s.suggest name value).2.toLoop.Poised := by
  have whole : Related (Recorder.Calmly s.scheduler.tolerance) s s := ⟨poised.calm, rfl, rfl, rfl, rfl, rfl⟩
  have related := (whole.suggest name value).loop
  rcases suggest_cases s name value with same | ⟨id, _, _, queues⟩
  · rwa [same]
  · rw [queues] at related ⊢
    exact ⟨related, fun later => ⟨(poised.still later).forced, (poised.still later).settled⟩⟩

theorem twins_suggest (twins : t.toLoop.Twins s.toLoop) (name : String) (value : K) :
    (t.suggest name value).1 = (s.suggest name value).1 ∧
      (t.suggest name value).2.toLoop.Twins (s.suggest name value).2.toLoop := by
  obtain ⟨scheduler, quantities, solver⟩ := twins
  unfold Layout.suggest
  rw [quantities]
  split
  · exact ⟨rfl, scheduler, quantities, solver⟩
  · rename_i id _
    split
    · exact ⟨rfl, congrArg (Scheduler.queue · id value) scheduler, rfl, solver⟩
    · exact ⟨rfl, scheduler, quantities, solver⟩

omit [Scalar K] in
theorem snapshot_eq (twins : t.toLoop.Twins s.toLoop) : t.snapshot = s.snapshot :=
  congrArg QuantityTable.snapshot twins.quantities

theorem replay_of_poised (commands : List (Command K))
    (rests : ∀ value : K, Scalar.isFinite value = true → Loop.Rests s.scheduler.tolerance value)
    (poised : s.toLoop.Poised) (clear : s.Clear commands) (twins : t.toLoop.Twins s.toLoop) :
    t.replay tickEagerly commands = s.replay tick commands := by
  induction commands generalizing s t with
  | nil => rfl
  | cons command rest ih =>
    cases command with
    | tick pointer | tickInto pointer =>
      obtain ⟨answer, after⟩ : (t.tickEagerly pointer).1 = (s.tick pointer).1 ∧
          (t.tickEagerly pointer).2.toLoop.Twins (s.tick pointer).2.toLoop := poised.tickEagerly clear.1 twins pointer
      have tolerance : (s.tick pointer).2.scheduler.tolerance = s.scheduler.tolerance := Loop.tolerance_tick pointer s.toLoop
      have later := ih (tolerance ▸ rests) (poised.tick rests pointer) clear.2 after
      rw [replay, replay, answer, snapshot_eq after, later]
    | suggest name value =>
      obtain ⟨answer, after⟩ := twins_suggest twins name value
      have tolerance : (s.suggest name value).2.scheduler.tolerance = s.scheduler.tolerance := by
        rcases suggest_cases s name value with same | ⟨id, _, _, queues⟩
        · rw [same]
        · rw [queues]
          rfl
      have later := ih (tolerance ▸ rests) (poised_suggest poised name value) clear after
      rw [replay, replay, answer, snapshot_eq after, later]

/-- A layout whose idle ticks are skipped shows the same as one that resolves on every tick, whatever values are forced
and whatever quantities refused, if no idle tick of the run comes upon suggestions that a failed one has left with the
recorder, and nothing is forced to a value that counts as moved from itself. -/
theorem eager_replay (spec : Specification Float) (settings : Settings Float) (forced : ValueMap Float)
    (rejected : List QuantityId) {s : Layout Float (Recorder Float)}
    (built : build spec settings ({ forced, rejected } : Recorder Float) = .ok s)
    (steady : ∀ f ∈ forced, Loop.Rests settings.changeTolerance f.2) (commands : List (Command Float))
    (clear : s.Clear commands) : s.replay tickEagerly commands = s.replay tick commands := by
  have start : Recorder.Calmly settings.changeTolerance ({ forced, rejected } : Recorder Float) { forced, rejected } :=
    ⟨rfl, fun _ _ known => (nomatch known), fun _ member => (nomatch member), steady⟩
  have rests (value : Float) (finite : Scalar.isFinite value = true) : Loop.Rests settings.changeTolerance value :=
    Loop.rests_of_isFinite settings.changeTolerance finite
  obtain ⟨other, same, related⟩ := build_related Scalar.finiteZero_float (Recorder.calmly_simulates rests) start built
  obtain rfl : s = other := Except.ok.inj (built.symm.trans same)
  obtain ⟨_, c, after, _, rfl⟩ := build_ok_iff.mp built
  have poised : (started settings c after).toLoop.Poised := ⟨related.loop, fun later => absurd rfl later⟩
  exact replay_of_poised commands rests poised clear ⟨rfl, rfl, fun _ => rfl, rfl, rfl, rfl⟩

def trio : Specification Float :=
  let spec : Specification Float := {}
  spec
    |>.declare "a" (.number 1)
    |>.declare "b" (.number 1)
    |>.declare "c" (.number 1)

/-- The idle tick at the end comes behind one that fails half-way and another that resolves what was left. -/
theorem trio_eager_replay : ∃ s, build trio .standard ({ forced := [(2, 7)], rejected := [1] } : Recorder Float) = .ok s ∧
    (∀ f ∈ [((2 : QuantityId), (7 : Float))], Loop.Rests Settings.standard.changeTolerance f.2) ∧
    let commands : List (Command Float) := [.tick ⟨0, 0⟩, .suggest "a" 5, .suggest "b" 6, .tick ⟨0, 0⟩, .suggest "c" 4,
      .tick ⟨0, 0⟩, .tick ⟨0, 0⟩]
    s.Clear commands ∧ s.replay tickEagerly commands = s.replay tick commands := by
  have checked : (build trio .standard ({ forced := [(2, 7)], rejected := [1] } : Recorder Float)).toOption.any
      (fun s => decide (s.Clear [.tick ⟨0, 0⟩, .suggest "a" 5, .suggest "b" 6, .tick ⟨0, 0⟩, .suggest "c" 4,
        .tick ⟨0, 0⟩, .tick ⟨0, 0⟩])) = true := by decide +kernel
  have steady : ∀ f ∈ [((2 : QuantityId), (7 : Float))], Loop.Rests Settings.standard.changeTolerance f.2 := by
    intro f member
    obtain rfl := List.mem_singleton.mp member
    exact Loop.rests_of_isFinite _ (by decide +kernel)
  cases built : build trio .standard ({ forced := [(2, 7)], rejected := [1] } : Recorder Float) with
  | error e =>
    rw [built] at checked
    cases checked
  | ok s =>
    rw [built] at checked
    have clear := of_decide_eq_true checked
    exact ⟨s, rfl, steady, clear, eager_replay trio .standard [(2, 7)] [1] built steady _ clear⟩

def sizes (seen : List (Seen K)) : List Nat :=
  seen.map fun shown => match shown.answer with
    | .ok (some changes) => changes.size
    | _ => 0

theorem differ_of_sizes {spec : Specification K} {settings : Settings K} {solver : Recorder K}
    {commands : List (Command K)} (checked : (build spec settings solver).toOption.any
      (fun s => sizes (s.replay tickEagerly commands) != sizes (s.replay tick commands)) = true) :
    ∃ s, build spec settings solver = .ok s ∧ s.replay tickEagerly commands ≠ s.replay tick commands := by
  cases built : build spec settings solver with
  | error e =>
    rw [built] at checked
    cases checked
  | ok s =>
    rw [built] at checked
    refine ⟨s, rfl, fun same => ?_⟩
    have different : (sizes (s.replay tickEagerly commands) != sizes (s.replay tick commands)) = true := checked
    rw [same, bne_self_eq_false] at different
    cases different

/-- Neither condition can be left out. The suggestion for the first quantity stays with the recorder when that for the
second is refused, and only a tick that resolves reports it; a quantity that is forced to what is not a number is
reported on every tick that resolves. -/
theorem idle_tick_withholds :
    (∃ s, build trio .standard ({ rejected := [1] } : Recorder Float) = .ok s ∧
      let commands : List (Command Float) := [.tick ⟨0, 0⟩, .suggest "a" 5, .suggest "b" 6, .tick ⟨0, 0⟩, .tick ⟨0, 0⟩]
      s.replay tickEagerly commands ≠ s.replay tick commands) ∧
    ∃ s, build trio .standard ({ forced := [(0, 0 / 0)] } : Recorder Float) = .ok s ∧
      let commands : List (Command Float) := [.tick ⟨0, 0⟩, .tick ⟨0, 0⟩]
      s.replay tickEagerly commands ≠ s.replay tick commands :=
  ⟨differ_of_sizes (by decide +kernel), differ_of_sizes (by decide +kernel)⟩

end Layout
end ReactiveLayout
