import ReactiveLayout.Proofs.Recorder
import ReactiveLayout.Proofs.TickCalls

/-! What a resolving tick settles each quantity at. The suggestions that earlier ticks left with the recorder, the answers
of the producers and the queue form one row, of which the last entry for a quantity counts, and a forced value counts
more. Of the queue nothing else remains: two queues that leave the same values leave loops that go on alike. -/
namespace ReactiveLayout
variable {K : Type}

namespace Recorder
variable {r t : Recorder K}

theorem Twins.suggestAll (twins : Twins r t) (suggestions : List (QuantityId × K)) :
    (Loop.suggestAll suggestions r).1 = (Loop.suggestAll suggestions t).1 ∧
      Twins (Loop.suggestAll suggestions r).2 (Loop.suggestAll suggestions t).2 := by
  induction suggestions generalizing r t with
  | nil => exact ⟨rfl, twins⟩
  | cons first rest ih =>
    obtain ⟨id, value⟩ := first
    have step : (Solver.suggest id value r).1 = (Solver.suggest id value t).1 ∧
        Twins (Solver.suggest id value r).2 (Solver.suggest id value t).2 := twins.suggest id value
    rw [Loop.suggestAll, Loop.suggestAll]
    generalize Solver.suggest id value r = reply at step
    generalize Solver.suggest id value t = other at step
    obtain ⟨answer, after⟩ := reply
    obtain ⟨_, after'⟩ := other
    obtain ⟨rfl, related⟩ := step
    cases answer with
    | error e => exact ⟨rfl, related⟩
    | ok => exact ih related

theorem registered_of_accepted {id : QuantityId} {value : K} (accepted : (r.suggest id value).1 = .ok ()) :
    ∃ old, r.values.lookup id = some old := by
  unfold suggest at accepted
  dsimp only at accepted
  split at accepted
  · cases accepted
  · rename_i known
    exact Option.ne_none_iff_exists'.mp (by simpa using known)

theorem resolveCount_log (r : Recorder K) (calls : List (Call K)) :
    resolveCount { r with calls := r.calls ++ calls } =
      r.resolveCount + resolveCount ({ calls := calls } : Recorder K) :=
  List.countP_append

theorem resolveCount_logged (suggestions : List (QuantityId × K)) :
    resolveCount ({ calls := logged suggestions } : Recorder K) = 0 := by
  simp [resolveCount, logged, List.countP_map, Function.comp_def]

theorem resolveCount_suggested (r : Recorder K) (made taken : List (QuantityId × K)) :
    (r.suggested made taken).resolveCount = r.resolveCount :=
  (resolveCount_log r (logged made)).trans (by rw [resolveCount_logged, Nat.add_zero])

end Recorder

namespace Loop
open Recorder
variable [Scalar K] {l m : Loop K (Recorder K)}

/-- Loops that agree in everything but the records and the rules of their recorders. -/
structure Twins (l m : Loop K (Recorder K)) : Prop where
  scheduler : l.scheduler = m.scheduler
  quantities : l.quantities = m.quantities
  solver : l.solver.Twins m.solver

theorem Twins.collect (twins : Twins l m) : l.collect.1 = m.collect.1 ∧ Twins l.collect.2 m.collect.2 := by
  obtain ⟨scheduler, quantities, solver⟩ := twins
  have values : (Solver.value? l.solver : QuantityId → Option K) = Solver.value? m.solver := funext solver.values
  unfold Loop.collect
  rw [scheduler, quantities, values]
  exact ⟨rfl, rfl, rfl, solver⟩

theorem Twins.tick (twins : Twins l m) (pointer : Pointer K) :
    (l.tick pointer).1 = (m.tick pointer).1 ∧ Twins (l.tick pointer).2 (m.tick pointer).2 := by
  obtain ⟨scheduler, quantities, solver⟩ := twins
  unfold Loop.tick
  rw [scheduler, quantities]
  split
  · exact ⟨rfl, rfl, rfl, solver⟩
  · rename_i values producers _
    have asked := solver.suggestAll (values ++ m.scheduler.pending)
    dsimp only
    generalize Loop.suggestAll (values ++ m.scheduler.pending) l.solver = reply at asked
    generalize Loop.suggestAll (values ++ m.scheduler.pending) m.solver = other at asked
    obtain ⟨answer, left⟩ := reply
    obtain ⟨_, right⟩ := other
    obtain ⟨rfl, between⟩ := asked
    cases answer with
    | error e => exact ⟨rfl, rfl, rfl, between⟩
    | ok =>
      dsimp only
      split
      · exact ⟨rfl, rfl, rfl, between⟩
      · have settled : Twins (K := K)
            ⟨{ m.scheduler with producers, pending := [], ticks := m.scheduler.ticks + 1 }, m.quantities, left.resolve.2⟩
            ⟨{ m.scheduler with producers, pending := [], ticks := m.scheduler.ticks + 1 }, m.quantities, right.resolve.2⟩ :=
          ⟨rfl, rfl, between.resolve⟩
        obtain ⟨same, after⟩ := settled.collect
        exact ⟨congrArg Except.ok same, after⟩

theorem Twins.after (twins : Twins l m) (event : Event K) : Twins (l.after event) (m.after event) := by
  obtain ⟨scheduler, quantities, solver⟩ := twins
  cases event with
  | tick pointer => exact (Twins.tick ⟨scheduler, quantities, solver⟩ pointer).2
  | queue id value => exact ⟨congrArg (Scheduler.queue · id value) scheduler, quantities, solver⟩
  | edit change => exact ⟨scheduler, congrArg change quantities, solver⟩
  | reject id =>
    refine ⟨scheduler, quantities, solver.values, solver.pending, solver.forced, ?_⟩
    simp only [Loop.after, reject, solver.rejected]
  | force id value =>
    refine ⟨scheduler, quantities, solver.values, solver.pending, ?_, solver.rejected⟩
    simp only [Loop.after, force, solver.forced]

/-- What an event is answered, if it is a tick. -/
def answer? (l : Loop K (Recorder K)) : Event K → Option (Except (LayoutError K) (ChangeSet K))
  | .tick pointer => some (l.tick pointer).1
  | .queue .. | .edit _ | .reject _ | .force .. => none

/-- The answers of the ticks of a run, in order. -/
def answers (l : Loop K (Recorder K)) : List (Event K) → List (Except (LayoutError K) (ChangeSet K))
  | [] => []
  | event :: rest => (l.answer? event).toList ++ (l.after event).answers rest

theorem Twins.answers (twins : Twins l m) (events : List (Event K)) : l.answers events = m.answers events := by
  induction events generalizing l m with
  | nil => rfl
  | cons event rest ih =>
    have first : l.answer? event = m.answer? event := by
      cases event with
      | tick pointer => exact congrArg some (twins.tick pointer).1
      | queue | edit | reject | force => rfl
    rw [Loop.answers, Loop.answers, first, ih (twins.after event)]

/-- The tick from here answers a change set, and its solver resolves. -/
def Resolved (pointer : Pointer K) (l : Loop K (Recorder K)) : Prop :=
  (∃ changes, (l.tick pointer).1 = .ok changes) ∧ l.solver.resolveCount < (l.tick pointer).2.solver.resolveCount

instance (pointer : Pointer K) (l : Loop K (Recorder K)) : Decidable (l.Resolved pointer) :=
  have answered : (l.tick pointer).1.isOk = true ↔ ∃ changes, (l.tick pointer).1 = .ok changes := by
    cases (l.tick pointer).1 <;> simp [Except.isOk, Except.toBool]
  decidable_of_iff (_ ∧ l.solver.resolveCount < (l.tick pointer).2.solver.resolveCount) (and_congr_left' answered)

theorem resolves_of_resolved {pointer : Pointer K} (resolved : l.Resolved pointer) : ∃ after, Resolves pointer l after := by
  obtain ⟨⟨changes, ok⟩, counted⟩ := resolved
  have ended := tick_cases pointer l
  generalize l.tick pointer = reply at ended ok counted
  cases ended with
  | stopped | refused | unsettled => cases ok
  | idle => exact absurd counted (Nat.lt_irrefl _)
  | settled produced suggested work resolved => exact ⟨_, _, _, _, produced, suggested, work, resolved⟩

theorem tick_of_resolved {pointer : Pointer K} (resolved : l.Resolved pointer) :
    ∃ values, Answered pointer l.scheduler.producers values ∧
      (∀ s ∈ values ++ l.scheduler.pending, (l.solver.suggest s.1 s.2).1 = .ok ()) ∧
      l.tick pointer = (.ok (l.resolved (values ++ l.scheduler.pending)).collect.1,
        (l.resolved (values ++ l.scheduler.pending)).collect.2) := by
  obtain ⟨⟨changes, ok⟩, counted⟩ := resolved
  obtain ⟨deed, rfl, did⟩ := tick_does pointer l
  generalize reply : l.tick deed.pointer = ended at did ok counted
  cases did with
  | producerFails | suggestionRefused => cases ok
  | idle => exact absurd counted (Nat.lt_irrefl _)
  | resolves answered accepted _ => exact ⟨_, answered, accepted, rfl⟩

/-- What a tick that has asked for some suggestions leaves of a loop. -/
structure Settles (l : Loop K (Recorder K)) (suggestions : List (QuantityId × K)) (after : Loop K (Recorder K)) : Prop where
  /-- A registered quantity has its forced value, else the last value suggested for it, else its old one. -/
  solver : ∀ id old, Solver.value? l.solver id = some old → Solver.value? after.solver id =
    some ((l.solver.forced.lookup id).getD ((lastFor? id suggestions).getD old))
  /-- The table takes the values of registered quantities over and keeps all else. -/
  table : ∀ id, after.quantities.get? id = (l.quantities.get? id).map fun q =>
    if Solver.isAdjustable l.solver id then { q with value := (Solver.value? after.solver id).getD q.value } else q

theorem settles_resolved (sound : l.solver.Sound) (suggestions : List (QuantityId × K))
    (accepted : ∀ s ∈ suggestions, (l.solver.suggest s.1 s.2).1 = .ok ()) :
    l.Settles (l.solver.pending ++ suggestions) (l.resolved suggestions).collect.2 := by
  have resolved (id : QuantityId) : Solver.value? (l.resolved suggestions).collect.2.solver id =
      ((lastFor? id (l.solver.pending ++ suggestions)).or (l.solver.values.lookup id)).map
        fun asked => (lastFor? id l.solver.forced).getD asked :=
    lookup_resolve (l.solver.suggested suggestions suggestions) id
  constructor
  · intro id old known
    have registered : l.solver.values.lookup id = some old := known
    rw [resolved, registered, sound.forced.lastFor?_eq]
    cases lastFor? id (l.solver.pending ++ suggestions) <;> rfl
  · intro id
    have entry : (l.resolved suggestions).collect.2.quantities.get? id = (l.quantities.get? id).map fun q =>
        { q with value := (Solver.value? (l.resolved suggestions).collect.2.solver (0 + id)).getD q.value } :=
      getElem?_settle _ _ _ _ _ _
    rw [entry, Nat.zero_add]
    congr 1
    funext q
    cases known : l.solver.values.lookup id with
    | some old =>
      have adjustable : Solver.isAdjustable l.solver id = true := by simp [Solver.isAdjustable, known]
      rw [if_pos adjustable]
    | none =>
      have foreign : ¬ Solver.isAdjustable l.solver id = true := by simp [Solver.isAdjustable, known]
      have silent : lastFor? id suggestions = none := by
        refine lastFor?_eq_none fun s member here => ?_
        obtain ⟨old, registered⟩ := registered_of_accepted (accepted s member)
        rw [here, known] at registered
        cases registered
      rw [if_neg foreign, resolved, known, lastFor?_append, silent, sound.lastFor?_pending known]
      rfl

/-- What a resolving tick settles each quantity at, for any producers, queue, table and recorder. A queued value is
behind that of the producer, so it is the one that counts; and if another queue leaves the recorder with the same
values, then the two ticks answer the same, and so does every tick of any run behind them. -/
theorem tick_settles (l : Loop K (Recorder K)) (pointer : Pointer K) (reached : l.solver.Reached)
    (resolved : l.Resolved pointer) :
    ∃ values, Answered pointer l.scheduler.producers values ∧
      l.Settles (l.solver.pending ++ (values ++ l.scheduler.pending)) (l.tick pointer).2 ∧
      (∀ id value, lastFor? id l.scheduler.pending = some value → l.solver.forced.lookup id = none →
        Solver.value? (l.tick pointer).2.solver id = some value) ∧
      ∀ queue, let other := { l with scheduler := { l.scheduler with pending := queue } }
        other.Resolved pointer →
        (∀ id, Solver.value? (l.tick pointer).2.solver id = Solver.value? (other.tick pointer).2.solver id) →
        (l.tick pointer).1 = (other.tick pointer).1 ∧
          ∀ events, (l.tick pointer).2.answers events = (other.tick pointer).2.answers events := by
  obtain ⟨values, answered, accepted, ticked⟩ := tick_of_resolved resolved
  have settles := settles_resolved reached.sound (values ++ l.scheduler.pending) accepted
  rw [ticked]
  refine ⟨values, answered, settles, ?_, ?_⟩
  · intro id value last free
    have queued := mem_of_lastFor? last
    obtain ⟨old, registered⟩ := registered_of_accepted (accepted _ (List.mem_append_right _ queued))
    rw [settles.solver id old registered, free, lastFor?_append, lastFor?_append, last]
    rfl
  · intro queue other settled same
    obtain ⟨others, _, _, tickedToo⟩ := tick_of_resolved settled
    rw [tickedToo] at same ⊢
    -- Apart from the values, what a resolution leaves does not tell one queue from another.
    have twins : (l.resolved (values ++ l.scheduler.pending)).Twins (other.resolved (others ++ queue)) :=
      ⟨rfl, rfl, same, rfl, rfl, rfl⟩
    obtain ⟨answer, after⟩ := twins.collect
    exact ⟨congrArg Except.ok answer, after.answers⟩

/-- A quantity with two producers and a queued value, one that is queued but forced, one that an earlier tick left a
suggestion for, and one that the recorder does not know. -/
def crowded : Loop Rat (Recorder Rat) where
  scheduler :=
    { producers := [(0, .constant 4), (0, .constant 5)], pending := [(1, 8), (0, 6)], reported := [], tolerance := 0 }
  quantities := ⟨[⟨"a", 1⟩, ⟨"b", 2⟩, ⟨"c", 3⟩, ⟨"d", 4⟩]⟩
  solver :=
    let r : Recorder Rat := {}
    let r := (((r.register 0 1 .strong).2.register 1 2 .strong).2.register 2 3 .strong).2
    ((r.suggest 2 9).2.force 1 7)

theorem crowded_tick_settles :
    crowded.solver.Reached ∧ crowded.Resolved ⟨0, 0⟩ ∧
      ∃ values, Answered ⟨0, 0⟩ crowded.scheduler.producers values ∧
        crowded.Settles ([(2, 9)] ++ (values ++ [(1, 8), (0, 6)])) (crowded.tick ⟨0, 0⟩).2 ∧
        Solver.value? (crowded.tick ⟨0, 0⟩).2.solver 0 = some 6 := by
  have reached : crowded.solver.Reached :=
    (((((Reached.fresh.register 0 1 .strong).register 1 2 .strong).register 2 3 .strong).suggest 2 9).force 1 7)
  have resolved : crowded.Resolved ⟨0, 0⟩ := by decide +kernel
  obtain ⟨values, answered, settles, queued, _⟩ := tick_settles crowded ⟨0, 0⟩ reached resolved
  exact ⟨reached, resolved, values, answered, settles, queued 0 6 rfl rfl⟩

end Loop
end ReactiveLayout
