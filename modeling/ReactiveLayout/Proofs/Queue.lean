import Mathlib
import ReactiveLayout.Proofs.FirstOccurrence
import ReactiveLayout.Proofs.Recorder
import ReactiveLayout.Proofs.Tick

/-! The queue of a scheduler over all its calls. A tick takes the queue away, however it ends, so only the suggestions
behind the last tick count. The queue condenses these: each quantity has one entry, which stands where the quantity was
first asked for and holds the value that was asked for last. -/
namespace ReactiveLayout.Scheduler
variable {K : Type}

/-- A call of a scheduler. Each tick may come with a table and a solver of its own. -/
inductive Step (K : Type) : Type 1 where
  | queue (id : QuantityId) (value : K)
  | tick {σ : Type} [Solver σ K] (pointer : Pointer K) (quantities : QuantityTable K) (solver : σ)

/-- The suggestion that a call queues. A tick queues none. -/
def Step.queued? : Step K → Option (QuantityId × K)
  | .queue id value => some (id, value)
  | _ => none

/-- The suggestions queued behind the last tick, in order. -/
def sinceTick (steps : List (Step K)) : List (QuantityId × K) :=
  (steps.rtakeWhile fun step => step.queued?.isSome).filterMap Step.queued?

theorem sinceTick_queue (steps : List (Step K)) (id : QuantityId) (value : K) :
    sinceTick (steps ++ [.queue id value]) = sinceTick steps ++ [(id, value)] := by
  have queues : (Step.queue id value).queued?.isSome = true := rfl
  rw [sinceTick, List.rtakeWhile_concat, if_pos queues, List.filterMap_append]
  rfl

theorem sinceTick_tick {σ : Type} [Solver σ K] (steps : List (Step K)) (pointer : Pointer K)
    (quantities : QuantityTable K) (solver : σ) : sinceTick (steps ++ [.tick pointer quantities solver]) = [] := by
  rw [sinceTick, List.rtakeWhile_concat, if_neg (by simp [Step.queued?])]
  rfl

def targets (suggestions : List (QuantityId × K)) : List QuantityId := suggestions.map (·.1)

theorem targets_append (front back : List (QuantityId × K)) : targets (front ++ back) = targets front ++ targets back :=
  List.map_append

theorem mem_targets {entry : QuantityId × K} {suggestions : List (QuantityId × K)} (member : entry ∈ suggestions) :
    entry.1 ∈ targets suggestions := List.mem_map_of_mem member

/-- A queue that stands for all suggestions that were asked for. -/
structure Condenses (asked pending : List (QuantityId × K)) : Prop where
  unique : (targets pending).Nodup
  same : ∀ id, id ∈ targets pending ↔ id ∈ targets asked
  /-- The entries stand in the order in which their quantities were first asked for. -/
  order : (targets pending).Pairwise (MetBefore (targets asked))
  last : ∀ entry ∈ pending, lastFor? entry.1 asked = some entry.2

/-- What a further suggestion does to a queue: it replaces the value of the first entry of its quantity and nothing else,
or it is put behind all entries if there is none. -/
inductive Enqueues (id : QuantityId) (value : K) : List (QuantityId × K) → List (QuantityId × K) → Prop where
  | replaced (front back : List (QuantityId × K)) (old : K) (first : id ∉ targets front) :
      Enqueues id value (front ++ (id, old) :: back) (front ++ (id, value) :: back)
  | added {pending : List (QuantityId × K)} (absent : id ∉ targets pending) :
      Enqueues id value pending (pending ++ [(id, value)])

theorem enqueue_enqueues (id : QuantityId) (value : K) (pending : List (QuantityId × K)) :
    Enqueues id value pending (enqueue id value pending) := by
  induction pending with
  | nil => exact Enqueues.added List.not_mem_nil
  | cons entry rest ih =>
    obtain ⟨other, held⟩ := entry
    by_cases here : other = id
    · subst here
      rw [enqueue, if_pos rfl]
      exact .replaced [] rest held List.not_mem_nil
    · rw [enqueue, if_neg here]
      have front {entries : List (QuantityId × K)} (none : id ∉ targets entries) :
          id ∉ targets ((other, held) :: entries) := List.not_mem_cons_of_ne_of_not_mem (Ne.symm here) none
      generalize enqueue id value rest = queue at ih
      cases ih with
      | replaced before back old first => exact .replaced ((other, held) :: before) back old (front first)
      | added absent => exact .added (front absent)

theorem Condenses.nil : Condenses ([] : List (QuantityId × K)) [] where
  unique := List.nodup_nil
  same _ := Iff.rfl
  order := List.Pairwise.nil
  last _ member := absurd member List.not_mem_nil

variable {asked pending queue : List (QuantityId × K)} {id other : QuantityId}

theorem Condenses.last_concat (condenses : Condenses asked pending) {entry : QuantityId × K} (member : entry ∈ pending)
    (different : entry.1 ≠ id) (value : K) : lastFor? entry.1 (asked ++ [(id, value)]) = some entry.2 := by
  rw [lastFor?_concat, if_neg different]
  exact condenses.last entry member

theorem lastFor?_concat_self (asked : List (QuantityId × K)) (id : QuantityId) (value : K) :
    lastFor? id (asked ++ [(id, value)]) = some value := by rw [lastFor?_concat, if_pos rfl]

theorem Condenses.enqueue {value : K} (condenses : Condenses asked pending) (enqueues : Enqueues id value pending queue) :
    Condenses (asked ++ [(id, value)]) queue := by
  have known : targets pending ⊆ targets asked := fun other member => (condenses.same other).mp member
  have elsewhere {entry : QuantityId × K} (member : entry ∈ pending) (different : entry.1 ≠ id) :=
    condenses.last_concat member different value
  obtain ⟨unique, same, order, _⟩ := condenses
  cases enqueues with
  | replaced front back old first =>
    have kept : targets (front ++ (id, value) :: back) = targets (front ++ (id, old) :: back) := by
      rw [targets_append, targets_append]
      rfl
    -- The quantity was asked for before, so asking again makes no new first occurrence.
    have before : id ∈ targets asked := known (mem_targets (List.mem_append_right front List.mem_cons_self))
    rw [targets_append] at unique
    have behind : id ∉ targets back := (List.nodup_cons.mp (List.nodup_append.mp unique).2.1).1
    refine ⟨?_, fun other => ?_, ?_, fun entry member => ?_⟩
    · rw [kept, targets_append]
      exact unique
    · rw [kept, same, targets_append, List.mem_append]
      exact ⟨.inl, fun asks => asks.elim (fun old => old) fun here => List.mem_singleton.mp here ▸ before⟩
    · rw [kept, targets_append asked]
      exact pairwise_metBefore_concat order known id
    · rcases List.mem_append.mp member with before | here | after
      · exact elsewhere (List.mem_append_left _ before) fun here => first (here ▸ mem_targets before)
      · exact lastFor?_concat_self asked id value
      · rename_i after
        exact elsewhere (List.mem_append_right _ (List.mem_cons_of_mem _ after)) fun here => behind (here ▸ mem_targets after)
  | added absent =>
    have fresh : id ∉ targets asked := fun asks => absent ((same id).mpr asks)
    refine ⟨?_, fun other => ?_, ?_, fun entry member => ?_⟩
    · rw [targets_append]
      exact List.concat_eq_append ▸ unique.concat absent
    · rw [targets_append, targets_append, List.mem_append, List.mem_append, same]
    · rw [targets_append, targets_append]
      exact pairwise_metBefore_next order known fresh
    · rcases List.mem_append.mp member with before | here
      · exact elsewhere before fun here => absent (here ▸ mem_targets before)
      · obtain rfl := List.mem_singleton.mp here
        exact lastFor?_concat_self asked id value

variable [Scalar K]

def after (s : Scheduler K) : Step K → Scheduler K
  | .queue id value => s.queue id value
  | @Step.tick _ _ _ pointer quantities solver => ((⟨s, quantities, solver⟩ : Loop K _).tick pointer).2.scheduler

def run (s : Scheduler K) (steps : List (Step K)) : Scheduler K := steps.foldl after s

/-- A tick takes the queue away on each of its five endings. -/
theorem pending_tick {σ : Type} [Solver σ K] (l : Loop K σ) (pointer : Pointer K) :
    (l.tick pointer).2.scheduler.pending = [] := by
  have ended := Loop.tick_cases pointer l
  generalize l.tick pointer = reply at ended
  cases ended with
  | stopped | refused | idle | unsettled | settled => rfl

/-- The induction is from the last call backwards, since a tick makes all calls in front of it void. -/
theorem run_condenses {s : Scheduler K} (idle : s.pending = []) (steps : List (Step K)) :
    Condenses (sinceTick steps) (s.run steps).pending := by
  induction steps using List.reverseRecOn with
  | nil => exact idle ▸ .nil
  | append_singleton steps step ih =>
    rw [run, List.foldl_append]
    cases step with
    | queue id value =>
      rw [sinceTick_queue]
      exact ih.enqueue (enqueue_enqueues id value _)
    | tick pointer quantities solver =>
      rw [sinceTick_tick]
      have emptied := pending_tick (⟨s.run steps, quantities, solver⟩ : Loop K _) pointer
      exact emptied.symm ▸ Condenses.nil

/-- However a scheduler is used, its queue stands for the suggestions since the last tick: one entry for each quantity that
was asked for, in the order of first asking, with the last value. A further suggestion replaces the value of the one entry
of its quantity where it stands and leaves all others, or it is put behind them. -/
theorem queue_condenses (producers : List (QuantityId × Producer K)) (quantities : QuantityTable K) (tolerance : K)
    (steps : List (Step K)) :
    let s := (start producers quantities tolerance).run steps
    Condenses (sinceTick steps) s.pending ∧ ∀ id value, Enqueues id value s.pending (s.queue id value).pending :=
  ⟨run_condenses rfl steps, fun id value => enqueue_enqueues id value _⟩

end ReactiveLayout.Scheduler
