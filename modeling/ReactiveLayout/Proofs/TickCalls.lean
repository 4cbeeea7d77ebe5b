import Mathlib.Data.List.Forall2
import Mathlib.Tactic.Common
import ReactiveLayout.Recorder
import ReactiveLayout.Proofs.Tick

/-! What a tick calls. A recorder shows every call to the solver, and a producer counts its own, so one tick can be
told by its deed alone: which producers it called and what they answered, and what it asked of the solver. A run is a
row of such deeds, whatever happens between them. -/
namespace ReactiveLayout
variable {K : Type}

def Producer.asked (p : Producer K) : Producer K := { p with calls := p.calls + 1 }

namespace Recorder

def logged (suggestions : List (QuantityId × K)) : List (Call K) := suggestions.map fun s => .suggest s.1 s.2

/-- The recorder after some suggestions were made, of which the first were taken. -/
def suggested (r : Recorder K) (made taken : List (QuantityId × K)) : Recorder K :=
  { r with calls := r.calls ++ logged made, pending := r.pending ++ taken }

/-- Whether a suggestion is refused does not depend on the suggestions in front of it. -/
theorem suggest_suggested (r : Recorder K) (made taken : List (QuantityId × K)) (id : QuantityId) (value : K) :
    ((r.suggested made taken).suggest id value).1 = (r.suggest id value).1 := by
  unfold suggest suggested log
  dsimp only
  split
  · rfl
  · split <;> rfl

theorem suggest_of_ok {r after : Recorder K} {id : QuantityId} {value : K}
    (taken : r.suggest id value = (.ok (), after)) : after = r.suggested [(id, value)] [(id, value)] := by
  unfold suggest at taken
  dsimp only at taken
  split at taken
  · cases taken
  · split at taken
    · cases taken
    · cases taken
      rfl

theorem suggest_of_error {r after : Recorder K} {id : QuantityId} {value : K} {e : SolverError K}
    (refused : r.suggest id value = (.error e, after)) : after = r.suggested [(id, value)] [] := by
  unfold suggest at refused
  dsimp only at refused
  split at refused
  · cases refused
    simp [suggested, logged, log]
  · split at refused
    · cases refused
      simp [suggested, logged, log]
    · cases refused

theorem suggested_suggested (r : Recorder K) (made taken more later : List (QuantityId × K)) :
    (r.suggested made taken).suggested more later = r.suggested (made ++ more) (taken ++ later) := by
  simp [suggested, logged]

end Recorder

namespace Loop
open Recorder

def asked (producers : List (QuantityId × Producer K)) : List (QuantityId × Producer K) :=
  producers.map fun p => (p.1, p.2.asked)

theorem suggestAll_ok {suggestions : List (QuantityId × K)} {r after : Recorder K}
    (made : suggestAll suggestions r = (.ok (), after)) :
    (∀ s ∈ suggestions, (r.suggest s.1 s.2).1 = .ok ()) ∧ after = r.suggested suggestions suggestions := by
  induction suggestions generalizing r with
  | nil =>
    cases made
    simp [suggested, logged]
  | cons first rest ih =>
    obtain ⟨id, value⟩ := first
    rw [suggestAll] at made
    split at made
    · cases made
    · rename_i between taken
      obtain rfl := suggest_of_ok taken
      obtain ⟨later, rfl⟩ := ih made
      refine ⟨?_, suggested_suggested _ _ _ _ _⟩
      intro s member
      rcases List.mem_cons.mp member with rfl | member
      · exact congrArg Prod.fst taken
      · rw [← suggest_suggested r [(id, value)] [(id, value)]]
        exact later s member

theorem suggestAll_error {suggestions : List (QuantityId × K)} {r after : Recorder K} {e : SolverError K}
    (made : suggestAll suggestions r = (.error e, after)) :
    ∃ taken id value rest, suggestions = taken ++ (id, value) :: rest ∧
      (∀ s ∈ taken, (r.suggest s.1 s.2).1 = .ok ()) ∧ (r.suggest id value).1 = .error e ∧
      after = r.suggested (taken ++ [(id, value)]) taken := by
  induction suggestions generalizing r with
  | nil => cases made
  | cons first rest ih =>
    obtain ⟨id, value⟩ := first
    rw [suggestAll] at made
    split at made
    · rename_i cause between refused
      cases made
      refine ⟨[], id, value, rest, rfl, ?_, congrArg Prod.fst refused, suggest_of_error refused⟩
      exact fun _ member => absurd member List.not_mem_nil
    · rename_i between accepted
      obtain rfl := suggest_of_ok accepted
      obtain ⟨taken, refusedId, refusedValue, left, rfl, earlier, refused, rfl⟩ := ih made
      rw [suggest_suggested] at refused
      refine ⟨(id, value) :: taken, refusedId, refusedValue, left, rfl, ?_, refused, suggested_suggested _ _ _ _ _⟩
      intro s member
      rcases List.mem_cons.mp member with rfl | member
      · exact congrArg Prod.fst accepted
      · rw [← suggest_suggested r [(id, value)] [(id, value)]]
        exact earlier s member

end Loop

variable [Scalar K]

namespace Producer

def answer (p : Producer K) (pointer : Pointer K) (call : Nat) : Except (ProducerError K) K :=
  match p.sample pointer call with
  | .error reason => .error (.failed reason)
  | .ok value => if Scalar.isFinite value then .ok value else .error (.nonFinite value)

theorem produce_eq (p : Producer K) (pointer : Pointer K) :
    p.produce pointer = (p.answer pointer p.calls, p.asked) := rfl

end Producer

namespace Loop
open Recorder

def Answered (pointer : Pointer K) : List (QuantityId × Producer K) → List (QuantityId × K) → Prop :=
  List.Forall₂ fun p s => p.1 = s.1 ∧ p.2.answer pointer p.2.calls = .ok s.2

theorem produceAll_ok {pointer : Pointer K} {quantities : QuantityTable K}
    {producers after : List (QuantityId × Producer K)} {values : List (QuantityId × K)}
    (produced : produceAll pointer quantities producers = (.ok values, after)) :
    Answered pointer producers values ∧ after = asked producers := by
  induction producers generalizing values after with
  | nil =>
    cases produced
    exact ⟨.nil, rfl⟩
  | cons first rest ih =>
    obtain ⟨id, producer⟩ := first
    rw [produceAll, Producer.produce_eq] at produced
    cases answered : producer.answer pointer producer.calls with
    | error source =>
      rw [answered] at produced
      cases produced
    | ok value =>
      rw [answered] at produced
      dsimp only at produced
      split at produced
      · cases produced
      · rename_i values others run
        cases produced
        obtain ⟨later, rfl⟩ := ih run
        exact ⟨.cons ⟨rfl, answered⟩ later, rfl⟩

theorem produceAll_error {pointer : Pointer K} {quantities : QuantityTable K}
    {producers after : List (QuantityId × Producer K)} {e : LayoutError K}
    (produced : produceAll pointer quantities producers = (.error e, after)) :
    ∃ front id producer back values source, producers = front ++ (id, producer) :: back ∧
      Answered pointer front values ∧ producer.answer pointer producer.calls = .error source ∧
      e = .producer ((quantities.name? id).getD "") source ∧ after = asked front ++ (id, producer.asked) :: back := by
  induction producers generalizing after with
  | nil => cases produced
  | cons first rest ih =>
    obtain ⟨id, producer⟩ := first
    rw [produceAll, Producer.produce_eq] at produced
    cases answered : producer.answer pointer producer.calls with
    | error source =>
      rw [answered] at produced
      cases produced
      exact ⟨[], id, producer, rest, [], source, rfl, .nil, answered, rfl, rfl⟩
    | ok value =>
      rw [answered] at produced
      dsimp only at produced
      split at produced
      · rename_i cause others run
        cases produced
        obtain ⟨front, failing, p, back, values, source, rfl, earlier, failed, rfl, rfl⟩ := ih run
        exact ⟨(id, producer) :: front, failing, p, back, (id, value) :: values, source, rfl,
          .cons ⟨rfl, answered⟩ earlier, failed, rfl, rfl⟩
      · cases produced

/-- A tick told by its calls. -/
structure Deed (K : Type) where
  /-- Where the pointer was. -/
  pointer : Pointer K
  /-- The answers of the producers that were called: those at the front of the list, each called once. -/
  answers : List (Except (ProducerError K) K)
  /-- The calls to the solver. -/
  calls : List (Call K)

/-- A loop after every producer was called, all suggestions were taken and the solver resolved; its table is still the
old one. -/
def resolved (l : Loop K (Recorder K)) (suggestions : List (QuantityId × K)) : Loop K (Recorder K) :=
  l.called (asked l.scheduler.producers) (l.scheduler.ticks + 1)
    (l.solver.suggested suggestions suggestions).resolve.2

/-- The deed of one tick and how the tick ends. -/
inductive Does (l : Loop K (Recorder K)) : Deed K → Reply (LayoutError K) (ChangeSet K) (Loop K (Recorder K)) → Prop where
  /-- A producer without a number is the last one called, and the solver is not called. -/
  | producerFails {pointer : Pointer K} {front back : List (QuantityId × Producer K)} {id : QuantityId}
      {producer : Producer K} {values : List (QuantityId × K)} {source : ProducerError K}
      (producers : l.scheduler.producers = front ++ (id, producer) :: back) (answered : Answered pointer front values)
      (failed : producer.answer pointer producer.calls = .error source) :
      Does l ⟨pointer, values.map (fun s => .ok s.2) ++ [.error source], []⟩
        (.error (.producer ((l.quantities.name? id).getD "") source),
          l.called (asked front ++ (id, producer.asked) :: back) l.scheduler.ticks l.solver)
  /-- A refused suggestion is the last call. -/
  | suggestionRefused {pointer : Pointer K} {values taken rest : List (QuantityId × K)} {id : QuantityId} {value : K}
      {e : SolverError K} (answered : Answered pointer l.scheduler.producers values)
      (suggestions : values ++ l.scheduler.pending = taken ++ (id, value) :: rest)
      (accepted : ∀ s ∈ taken, (l.solver.suggest s.1 s.2).1 = .ok ())
      (refused : (l.solver.suggest id value).1 = .error e) :
      Does l ⟨pointer, values.map fun s => .ok s.2, logged (taken ++ [(id, value)])⟩
        (.error (.solver e),
          l.called (asked l.scheduler.producers) l.scheduler.ticks (l.solver.suggested (taken ++ [(id, value)]) taken))
  /-- With nothing to suggest, only the first tick resolves. -/
  | idle {pointer : Pointer K} (producers : l.scheduler.producers = []) (queued : l.scheduler.pending = [])
      (later : l.scheduler.ticks ≠ 0) :
      Does l ⟨pointer, [], []⟩ (.ok .empty, l.called [] (l.scheduler.ticks + 1) l.solver)
  /-- The one resolution is the last call, behind a suggestion for each producer and the queued ones. -/
  | resolves {pointer : Pointer K} {values : List (QuantityId × K)}
      (answered : Answered pointer l.scheduler.producers values)
      (accepted : ∀ s ∈ values ++ l.scheduler.pending, (l.solver.suggest s.1 s.2).1 = .ok ())
      (due : values ++ l.scheduler.pending ≠ [] ∨ l.scheduler.ticks = 0) :
      Does l ⟨pointer, values.map fun s => .ok s.2, logged (values ++ l.scheduler.pending) ++ [.resolve]⟩
        (.ok (l.resolved (values ++ l.scheduler.pending)).collect.1,
          (l.resolved (values ++ l.scheduler.pending)).collect.2)

theorem tick_does (pointer : Pointer K) (l : Loop K (Recorder K)) :
    ∃ deed, deed.pointer = pointer ∧ Does l deed (l.tick pointer) := by
  have ended := tick_cases pointer l
  generalize l.tick pointer = reply at ended
  cases ended with
  | stopped produced =>
    obtain ⟨front, id, producer, back, values, source, producers, answered, failed, rfl, rfl⟩ := produceAll_error produced
    exact ⟨_, rfl, .producerFails producers answered failed⟩
  | refused produced suggested =>
    obtain ⟨answered, rfl⟩ := produceAll_ok produced
    obtain ⟨taken, id, value, rest, suggestions, accepted, refused, rfl⟩ := suggestAll_error suggested
    exact ⟨_, rfl, .suggestionRefused answered suggestions accepted refused⟩
  | idle produced queued later =>
    obtain ⟨answered, rfl⟩ := produceAll_ok produced
    have none : l.scheduler.producers = [] := List.forall₂_nil_right_iff.mp answered
    rw [none]
    exact ⟨_, rfl, .idle none queued later⟩
  | unsettled _ _ _ resolved => cases resolved
  | settled produced suggested work resolved =>
    obtain ⟨answered, rfl⟩ := produceAll_ok produced
    obtain ⟨accepted, rfl⟩ := suggestAll_ok suggested
    cases resolved
    exact ⟨_, rfl, .resolves answered accepted work⟩

/-- What happens to a loop on a recorder: ticks, suggestions for the next tick, changes of its table, and orders to the
recorder to refuse or to force values. -/
inductive Event (K : Type) where
  | tick (pointer : Pointer K)
  | queue (id : QuantityId) (value : K)
  | edit (change : QuantityTable K → QuantityTable K)
  | reject (id : QuantityId)
  | force (id : QuantityId) (value : K)

def after (l : Loop K (Recorder K)) : Event K → Loop K (Recorder K)
  | .tick pointer => (l.tick pointer).2
  | .queue id value => { l with scheduler := l.scheduler.queue id value }
  | .edit change => { l with quantities := change l.quantities }
  | .reject id => { l with solver := l.solver.reject id }
  | .force id value => { l with solver := l.solver.force id value }

def run (l : Loop K (Recorder K)) (events : List (Event K)) : Loop K (Recorder K) := events.foldl after l

/-- The deeds of the ticks of a run, in order. -/
inductive Traces : Loop K (Recorder K) → List (Event K) → List (Deed K) → Prop where
  | nil {l : Loop K (Recorder K)} : Traces l [] []
  | tick {l : Loop K (Recorder K)} {deed : Deed K} {events : List (Event K)} {deeds : List (Deed K)}
      (did : Does l deed (l.tick deed.pointer)) (later : Traces (l.tick deed.pointer).2 events deeds) :
      Traces l (.tick deed.pointer :: events) (deed :: deeds)
  | other {l : Loop K (Recorder K)} {event : Event K} {events : List (Event K)} {deeds : List (Deed K)}
      (noTick : ∀ pointer, event ≠ .tick pointer) (later : Traces (l.after event) events deeds) :
      Traces l (event :: events) deeds

theorem run_traces (l : Loop K (Recorder K)) (events : List (Event K)) : ∃ deeds, Traces l events deeds := by
  induction events generalizing l with
  | nil => exact ⟨[], .nil⟩
  | cons event rest ih =>
    obtain ⟨deeds, later⟩ := ih (l.after event)
    cases event with
    | tick pointer =>
      obtain ⟨deed, rfl, did⟩ := tick_does pointer l
      exact ⟨deed :: deeds, .tick did later⟩
    | queue | edit | reject | force => exact ⟨deeds, .other (by simp) later⟩

theorem Does.calls {l : Loop K (Recorder K)} {deed : Deed K}
    {reply : Reply (LayoutError K) (ChangeSet K) (Loop K (Recorder K))} (did : Does l deed reply) :
    reply.2.solver.calls = l.solver.calls ++ deed.calls := by
  cases did with
  | producerFails | idle => exact (List.append_nil _).symm
  | suggestionRefused => rfl
  | resolves => exact List.append_assoc _ _ _

theorem Does.mem_calls {l : Loop K (Recorder K)} {deed : Deed K}
    {reply : Reply (LayoutError K) (ChangeSet K) (Loop K (Recorder K))} (did : Does l deed reply) {call : Call K}
    (member : call ∈ deed.calls) : call = .resolve ∨ ∃ id value, call = .suggest id value := by
  have suggestion {suggestions : List (QuantityId × K)} (member : call ∈ logged suggestions) :
      ∃ id value, call = .suggest id value := by
    obtain ⟨s, _, rfl⟩ := List.mem_map.mp member
    exact ⟨s.1, s.2, rfl⟩
  cases did with
  | producerFails | idle => cases member
  | suggestionRefused => exact .inr (suggestion member)
  | resolves =>
    rcases List.mem_append.mp member with made | last
    · exact .inr (suggestion made)
    · exact .inl (List.mem_singleton.mp last)

theorem getElem?_of_answered {pointer : Pointer K} {producers : List (QuantityId × Producer K)}
    {values : List (QuantityId × K)} (answered : Answered pointer producers values) {i : Nat} {id : QuantityId}
    {producer : Producer K} (here : producers[i]? = some (id, producer)) :
    (values.map fun s => (.ok s.2 : Except (ProducerError K) K))[i]? =
      some (producer.answer pointer producer.calls) := by
  induction answered generalizing i with
  | nil => cases here
  | cons first _ ih =>
    cases i with
    | zero =>
      cases here
      simp [first.2]
    | succ i => exact ih here

theorem Does.producer {l : Loop K (Recorder K)} {deed : Deed K}
    {reply : Reply (LayoutError K) (ChangeSet K) (Loop K (Recorder K))} (did : Does l deed reply) {i : Nat}
    {id : QuantityId} {producer : Producer K} (here : l.scheduler.producers[i]? = some (id, producer)) :
    (deed.answers[i]? = none ∧ reply.2.scheduler.producers[i]? = some (id, producer)) ∨
      (deed.answers[i]? = some (producer.answer deed.pointer producer.calls) ∧
        reply.2.scheduler.producers[i]? = some (id, producer.asked)) := by
  have called : (asked l.scheduler.producers)[i]? = some (id, producer.asked) := by
    rw [asked, List.getElem?_map, here, Option.map_some]
  cases did with
  | suggestionRefused answered => exact .inr ⟨getElem?_of_answered answered here, called⟩
  | resolves answered => exact .inr ⟨getElem?_of_answered answered here, called⟩
  | idle producers =>
    rw [producers] at here
    cases here
  | @producerFails pointer front back failing p values source producers answered failed =>
    rw [producers] at here
    have answers : (values.map fun s => (.ok s.2 : Except (ProducerError K) K)).length = front.length := by
      rw [List.length_map, answered.length_eq]
    have count : (asked front).length = front.length := List.length_map _
    change (_ ∧ (asked front ++ (failing, p.asked) :: back)[i]? = _) ∨
      (_ ∧ (asked front ++ (failing, p.asked) :: back)[i]? = _)
    rcases Nat.lt_trichotomy i front.length with before | rfl | behind
    · rw [List.getElem?_append_left before] at here
      rw [List.getElem?_append_left (answers ▸ before), List.getElem?_append_left (count ▸ before)]
      refine .inr ⟨getElem?_of_answered answered here, ?_⟩
      rw [asked, List.getElem?_map, here, Option.map_some]
    · rw [List.getElem?_append_right (Nat.le_refl _), Nat.sub_self] at here
      cases here
      rw [List.getElem?_append_right (Nat.le_of_eq answers), List.getElem?_append_right (Nat.le_of_eq count), answers,
        count, Nat.sub_self]
      exact .inr ⟨congrArg some failed.symm, rfl⟩
    · obtain ⟨k, rfl⟩ := Nat.exists_eq_add_of_lt behind
      rw [List.getElem?_append_right (by omega)] at here
      rw [List.getElem?_append_right (by omega), List.getElem?_append_right (by omega), answers, count]
      have place : front.length + k + 1 - front.length = k + 1 := by omega
      rw [place] at here ⊢
      exact .inl ⟨rfl, here⟩

/-- The answers of the producer at one place, each with where the pointer was. -/
def answersOf (i : Nat) (deeds : List (Deed K)) : List (Pointer K × Except (ProducerError K) K) :=
  deeds.filterMap fun deed => deed.answers[i]?.map fun answer => (deed.pointer, answer)

/-- Over a run a producer answers its calls by their number. -/
theorem Traces.answersOf {l : Loop K (Recorder K)} {events : List (Event K)} {deeds : List (Deed K)}
    (traced : Traces l events deeds) {i : Nat} {id : QuantityId} {producer : Producer K}
    (here : l.scheduler.producers[i]? = some (id, producer)) (k : Nat) {pointer : Pointer K}
    {answer : Except (ProducerError K) K} (called : (answersOf i deeds)[k]? = some (pointer, answer)) :
    answer = producer.answer pointer (producer.calls + k) := by
  induction traced generalizing producer k with
  | nil => cases called
  | tick did _ ih =>
    rcases did.producer here with ⟨silent, same⟩ | ⟨answered, next⟩
    · rw [Loop.answersOf, List.filterMap_cons_none (by rw [silent, Option.map_none])] at called
      exact ih same k called
    · rw [Loop.answersOf, List.filterMap_cons_some (by rw [answered, Option.map_some])] at called
      cases k with
      | zero =>
        cases called
        rfl
      | succ k =>
        have later := ih next k called
        rw [later, Nat.add_comm k 1, ← Nat.add_assoc]
        rfl
  | @other l event _ _ noTick _ ih =>
    have same : (l.after event).scheduler.producers = l.scheduler.producers := by
      cases event with
      | tick pointer => exact absurd rfl (noTick pointer)
      | queue | edit | reject | force => rfl
    exact ih (same ▸ here) k called

theorem Traces.calls {l : Loop K (Recorder K)} {events : List (Event K)} {deeds : List (Deed K)}
    (traced : Traces l events deeds) :
    (l.run events).solver.calls = l.solver.calls ++ deeds.flatMap (·.calls) := by
  induction traced with
  | nil => simp [run]
  | @tick l deed events deeds did _ ih =>
    have run_cons : l.run (.tick deed.pointer :: events) = (l.tick deed.pointer).2.run events := rfl
    rw [run_cons, ih, did.calls, List.flatMap_cons, List.append_assoc]
  | @other l event events _ noTick _ ih =>
    have run_cons : l.run (event :: events) = (l.after event).run events := rfl
    have same : (l.after event).solver.calls = l.solver.calls := by
      cases event with
      | tick pointer => exact absurd rfl (noTick pointer)
      | queue | edit | reject | force => rfl
    rw [run_cons, ih, same]

theorem Traces.mem_calls {l : Loop K (Recorder K)} {events : List (Event K)} {deeds : List (Deed K)}
    (traced : Traces l events deeds) {deed : Deed K} (member : deed ∈ deeds) {call : Call K} (made : call ∈ deed.calls) :
    call = .resolve ∨ ∃ id value, call = .suggest id value := by
  induction traced with
  | nil => cases member
  | tick did _ ih =>
    rcases List.mem_cons.mp member with rfl | later
    · exact did.mem_calls made
    · exact ih later
  | other _ _ ih => exact ih member

/-- Tick discipline: whatever happens to a loop, its record is the row of the deeds of its ticks, which hold nothing but
suggestions and resolutions, and every producer answers its calls in their order. -/
theorem run_disciplined (l : Loop K (Recorder K)) (events : List (Event K)) :
    ∃ deeds, Traces l events deeds ∧
      (l.run events).solver.calls = l.solver.calls ++ deeds.flatMap (·.calls) ∧
      (∀ deed ∈ deeds, ∀ call ∈ deed.calls, call = .resolve ∨ ∃ id value, call = .suggest id value) ∧
      ∀ i id producer, l.scheduler.producers[i]? = some (id, producer) → ∀ k pointer answer,
        (answersOf i deeds)[k]? = some (pointer, answer) → answer = producer.answer pointer (producer.calls + k) := by
  obtain ⟨deeds, traced⟩ := run_traces l events
  refine ⟨deeds, traced, traced.calls, ?_, ?_⟩
  · intro deed member call made
    exact traced.mem_calls member made
  · intro i id producer here k pointer answer called
    exact traced.answersOf here k called

end Loop
end ReactiveLayout
