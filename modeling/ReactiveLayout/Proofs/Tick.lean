import Mathlib.Data.List.Forall2
import ReactiveLayout.Layout
import ReactiveLayout.Proofs.QuantityTable

/-! One tick, case by case, and what settling does to the table and to the values last reported. Every statement on
runs of a layout goes through the five endings of a tick that are listed here. -/
namespace ReactiveLayout.Loop
variable {K σ : Type} [Scalar K] [Solver σ K]

def called (l : Loop K σ) (producers : List (QuantityId × Producer K)) (ticks : Nat) (solver : σ) : Loop K σ :=
  { l with scheduler := { l.scheduler with producers, pending := [], ticks }, solver }

/-- All endings of a tick, each with what led to it: a producer failed, the solver refused a suggestion, there was
nothing to settle, the resolution failed, or it came through. -/
inductive Ticks (pointer : Pointer K) (l : Loop K σ) : Reply (LayoutError K) (ChangeSet K) (Loop K σ) → Prop where
  | stopped {e : LayoutError K} {producers : List (QuantityId × Producer K)}
      (produced : produceAll pointer l.quantities l.scheduler.producers = (.error e, producers)) :
      Ticks pointer l (.error e, l.called producers l.scheduler.ticks l.solver)
  | refused {values : List (QuantityId × K)} {producers : List (QuantityId × Producer K)} {e : SolverError K}
      {solver : σ} (produced : produceAll pointer l.quantities l.scheduler.producers = (.ok values, producers))
      (suggested : suggestAll (values ++ l.scheduler.pending) l.solver = (.error e, solver)) :
      Ticks pointer l (.error (.solver e), l.called producers l.scheduler.ticks solver)
  | idle {producers : List (QuantityId × Producer K)}
      (produced : produceAll pointer l.quantities l.scheduler.producers = (.ok [], producers))
      (queued : l.scheduler.pending = []) (later : l.scheduler.ticks ≠ 0) :
      Ticks pointer l (.ok .empty, l.called producers (l.scheduler.ticks + 1) l.solver)
  | unsettled {values : List (QuantityId × K)} {producers : List (QuantityId × Producer K)} {e : SolverError K}
      {solver after : σ} (produced : produceAll pointer l.quantities l.scheduler.producers = (.ok values, producers))
      (suggested : suggestAll (values ++ l.scheduler.pending) l.solver = (.ok (), solver))
      (work : values ++ l.scheduler.pending ≠ [] ∨ l.scheduler.ticks = 0)
      (resolved : Solver.resolve solver = (.error e, after)) :
      Ticks pointer l (.error (.solver e), l.called producers (l.scheduler.ticks + 1) after)
  | settled {values : List (QuantityId × K)} {producers : List (QuantityId × Producer K)} {solver after : σ}
      (produced : produceAll pointer l.quantities l.scheduler.producers = (.ok values, producers))
      (suggested : suggestAll (values ++ l.scheduler.pending) l.solver = (.ok (), solver))
      (work : values ++ l.scheduler.pending ≠ [] ∨ l.scheduler.ticks = 0)
      (resolved : Solver.resolve solver = (.ok (), after)) :
      Ticks pointer l (.ok (collect (l.called producers (l.scheduler.ticks + 1) after)).1,
        (collect (l.called producers (l.scheduler.ticks + 1) after)).2)

theorem tick_cases (pointer : Pointer K) (l : Loop K σ) : Ticks pointer l (l.tick pointer) := by
  unfold tick
  split
  · rename_i produced
    exact .stopped produced
  · rename_i values producers produced
    dsimp only
    split
    · rename_i suggested
      exact .refused produced suggested
    · rename_i solver suggested
      split
      · rename_i quiet
        obtain ⟨nothing, later⟩ : values ++ l.scheduler.pending = [] ∧ l.scheduler.ticks ≠ 0 := by
          simpa using quiet
        obtain ⟨rfl, queued⟩ := List.append_eq_nil_iff.mp nothing
        rw [nothing] at suggested
        cases suggested
        exact .idle produced queued later
      · rename_i busy
        have work : values ++ l.scheduler.pending ≠ [] ∨ l.scheduler.ticks = 0 := by
          by_cases nothing : values ++ l.scheduler.pending = []
          · exact .inr (by simpa [nothing] using busy)
          · exact .inl nothing
        split
        · rename_i resolved
          exact .unsettled produced suggested work resolved
        · rename_i resolved
          exact .settled produced suggested work resolved

/-- The tick from here resolves and leaves the solver in the state `after`: every producer answers, every suggestion
is taken, there is something to settle or nothing was ever, and the resolution succeeds. -/
def Resolves (pointer : Pointer K) (l : Loop K σ) (after : σ) : Prop :=
  ∃ values producers solver, produceAll pointer l.quantities l.scheduler.producers = (.ok values, producers) ∧
    suggestAll (values ++ l.scheduler.pending) l.solver = (.ok (), solver) ∧
    (values ++ l.scheduler.pending ≠ [] ∨ l.scheduler.ticks = 0) ∧ Solver.resolve solver = (.ok (), after)

theorem tick_of_resolves {pointer : Pointer K} {l : Loop K σ} {after : σ} (resolves : Resolves pointer l after) :
    ∃ producers, l.tick pointer =
      (.ok (collect (l.called producers (l.scheduler.ticks + 1) after)).1,
        (collect (l.called producers (l.scheduler.ticks + 1) after)).2) := by
  obtain ⟨values, producers, solver, produced, suggested, work, resolved⟩ := resolves
  refine ⟨producers, ?_⟩
  have busy : ((values ++ l.scheduler.pending).isEmpty && l.scheduler.ticks != 0) = false := by
    rcases work with some | first
    · simp only [List.isEmpty_eq_false_iff.mpr some, Bool.false_and]
    · simp [first]
  simp only [tick, produced, suggested, busy, Bool.false_eq_true, if_false, resolved]
  rfl

/-- A tick that does not resolve reports nothing and leaves the table. -/
theorem tick_of_not_resolves {pointer : Pointer K} {l : Loop K σ} (quiet : ∀ after, ¬ Resolves pointer l after) :
    (∀ changes, (l.tick pointer).1 = .ok changes → changes = .empty) ∧
      ∃ producers ticks solver, (l.tick pointer).2 = l.called producers ticks solver := by
  have ended := tick_cases pointer l
  generalize l.tick pointer = reply at ended
  cases ended with
  | stopped | refused | unsettled => exact ⟨fun _ ok => (nomatch ok), _, _, _, rfl⟩
  | idle => exact ⟨fun _ ok => (Except.ok.inj ok).symm, _, _, _, rfl⟩
  | settled produced suggested work resolved =>
    exact absurd ⟨_, _, _, produced, suggested, work, resolved⟩ (quiet _)

omit [Scalar K] in
theorem suggestAll_invariant {P : σ → Prop} {suggestions : List (QuantityId × K)} {solver : σ}
    (step : ∀ s ∈ suggestions, ∀ before, P before → P (Solver.suggest s.1 s.2 before).2) (start : P solver) :
    P (suggestAll suggestions solver).2 := by
  induction suggestions generalizing solver with
  | nil => exact start
  | cons first rest ih =>
    obtain ⟨id, value⟩ := first
    have kept := step (id, value) List.mem_cons_self solver start
    rw [suggestAll]
    generalize Solver.suggest id value solver = reply at kept
    obtain ⟨answer, between⟩ := reply
    cases answer with
    | error e => exact kept
    | ok => exact ih (fun s member => step s (List.mem_cons_of_mem _ member)) kept

section
omit [Solver σ K]
variable (tolerance : K) (values : QuantityId → Option K)

/-- One quantity is settled in one of three ways, and the later ones do not depend on it. -/
theorem settle_cons (id : QuantityId) (q : Quantity K) (rest : List (Quantity K)) (reported : List K) :
    let later := settle tolerance values (id + 1) rest reported.tail
    let baseline := reported.headD 0
    (values id = none ∧ settle tolerance values id (q :: rest) reported =
      ⟨q :: later.entries, baseline :: later.reported, later.changes⟩) ∨
    (∃ value, values id = some value ∧ moved tolerance value baseline = true ∧
      settle tolerance values id (q :: rest) reported =
        ⟨{ q with value } :: later.entries, value :: later.reported, (q.name, value) :: later.changes⟩) ∨
    (∃ value, values id = some value ∧ ¬ moved tolerance value baseline = true ∧
      settle tolerance values id (q :: rest) reported =
        ⟨{ q with value } :: later.entries, baseline :: later.reported, later.changes⟩) := by
  dsimp only
  cases known : values id with
  | none => exact .inl ⟨rfl, by simp only [settle, known]⟩
  | some value =>
    by_cases far : moved tolerance value (reported.headD 0) = true
    · exact .inr (.inl ⟨value, rfl, far, by simp only [settle, known, if_pos far]⟩)
    · exact .inr (.inr ⟨value, rfl, far, by simp only [settle, known, if_neg far]⟩)

theorem settle_names (id : QuantityId) (entries : List (Quantity K)) (reported : List K) :
    (settle tolerance values id entries reported).entries.map (·.name) = entries.map (·.name) := by
  induction entries generalizing id reported with
  | nil => rfl
  | cons q rest ih =>
    rcases settle_cons tolerance values id q rest reported with ⟨_, same⟩ | ⟨_, _, _, same⟩ | ⟨_, _, _, same⟩
    all_goals rw [same, List.map_cons, List.map_cons, ih]

theorem getElem?_settle (id : QuantityId) (entries : List (Quantity K)) (reported : List K) (i : Nat) :
    (settle tolerance values id entries reported).entries[i]? =
      entries[i]?.map fun q => { q with value := (values (id + i)).getD q.value } := by
  induction entries generalizing id reported i with
  | nil => rfl
  | cons q rest ih =>
    cases i with
    | zero =>
      rcases settle_cons tolerance values id q rest reported with ⟨known, same⟩ | ⟨_, known, _, same⟩ | ⟨_, known, _, same⟩
      all_goals simp [same, known]
    | succ i =>
      have place : id + (i + 1) = id + 1 + i := by rw [Nat.add_assoc, Nat.add_comm 1 i]
      rcases settle_cons tolerance values id q rest reported with ⟨_, same⟩ | ⟨_, _, _, same⟩ | ⟨_, _, _, same⟩
      all_goals rw [same, List.getElem?_cons_succ, List.getElem?_cons_succ, ih, place]

theorem settle_changes_sublist (id : QuantityId) (entries : List (Quantity K)) (reported : List K) :
    ((settle tolerance values id entries reported).changes.map (·.1)).Sublist (entries.map (·.name)) := by
  induction entries generalizing id reported with
  | nil => exact .slnil
  | cons q rest ih =>
    rcases settle_cons tolerance values id q rest reported with ⟨_, same⟩ | ⟨_, _, _, same⟩ | ⟨_, _, _, same⟩
    · rw [same]
      exact (ih _ _).cons _
    · rw [same]
      exact (ih _ _).cons_cons _
    · rw [same]
      exact (ih _ _).cons _

theorem mem_settle_changes {mirrored : String → Option K} (id : QuantityId) {entries : List (Quantity K)}
    {reported : List K} (aligned : List.Forall₂ (fun q baseline => mirrored q.name = some baseline) entries reported)
    (name : String) (value : K) :
    (name, value) ∈ (settle tolerance values id entries reported).changes ↔
      ∃ i q baseline, entries[i]? = some q ∧ q.name = name ∧ mirrored name = some baseline ∧
        values (id + i) = some value ∧ moved tolerance value baseline = true := by
  induction aligned generalizing id with
  | nil => simp [settle]
  | @cons q baseline rest later first _ ih =>
    have here : (∃ i next last, (q :: rest)[i]? = some next ∧ next.name = name ∧ mirrored name = some last ∧
        values (id + i) = some value ∧ moved tolerance value last = true) ↔
        (q.name = name ∧ values id = some value ∧ moved tolerance value baseline = true) ∨
          (name, value) ∈ (settle tolerance values (id + 1) rest later).changes := by
      rw [ih]
      constructor
      · rintro ⟨i, next, last, found, named, known, settled, far⟩
        cases i with
        | zero =>
          obtain rfl : q = next := Option.some.inj found
          obtain rfl : baseline = last := Option.some.inj (first.symm.trans (named ▸ known))
          exact .inl ⟨named, settled, far⟩
        | succ i => exact .inr ⟨i, next, last, found, named, known, by rwa [Nat.add_assoc, Nat.add_comm 1], far⟩
      · rintro (⟨named, settled, far⟩ | ⟨i, next, last, found, named, known, settled, far⟩)
        · exact ⟨0, q, baseline, rfl, named, named ▸ first, settled, far⟩
        · exact ⟨i + 1, next, last, found, named, known, by rwa [Nat.add_assoc, Nat.add_comm 1] at settled, far⟩
    rw [here]
    rcases settle_cons tolerance values id q rest (baseline :: later) with
      ⟨unknown, same⟩ | ⟨current, known, far, same⟩ | ⟨current, known, near, same⟩
    · rw [same, unknown]
      simp only [List.tail_cons, reduceCtorEq, false_and, and_false, false_or]
    · rw [same, known]
      simp only [List.mem_cons, Prod.mk.injEq, Option.some.injEq, List.tail_cons]
      refine or_congr ⟨?_, ?_⟩ Iff.rfl
      · rintro ⟨rfl, rfl⟩
        exact ⟨rfl, rfl, far⟩
      · rintro ⟨rfl, rfl, _⟩
        exact ⟨rfl, rfl⟩
    · rw [same, known]
      refine (or_iff_right ?_).symm
      rintro ⟨_, settled, far⟩
      obtain rfl := Option.some.inj settled
      exact near far

end

theorem collect_names (l : Loop K σ) : l.collect.2.quantities.names = l.quantities.names := settle_names _ _ _ _ _

theorem collect_size (l : Loop K σ) : l.collect.2.quantities.size = l.quantities.size := by
  rw [← QuantityTable.length_names, collect_names, QuantityTable.length_names]

theorem tick_names {l : Loop K σ} (pointer : Pointer K) :
    (l.tick pointer).2.quantities.names = l.quantities.names := by
  have ended := tick_cases pointer l
  generalize l.tick pointer = reply at ended
  cases ended with
  | stopped | refused | idle | unsettled => rfl
  | settled => exact collect_names _

theorem tick_size {l : Loop K σ} (pointer : Pointer K) : (l.tick pointer).2.quantities.size = l.quantities.size := by
  rw [← QuantityTable.length_names, tick_names, QuantityTable.length_names]

/-- What the suggestions and the resolution of a tick keep of a solver, the tick keeps, whether it is cut short or
not. -/
theorem tick_solver {P : σ → Prop} {Q : QuantityId × K → Prop} {l : Loop K σ} (pointer : Pointer K)
    (produced : ∀ values producers, produceAll pointer l.quantities l.scheduler.producers = (.ok values, producers) →
      ∀ s ∈ values, Q s)
    (queued : ∀ s ∈ l.scheduler.pending, Q s)
    (suggested : ∀ s before, Q s → P before → P (Solver.suggest s.1 s.2 before).2)
    (resolved : ∀ before, P before → P (Solver.resolve before).2) (start : P l.solver) : P (l.tick pointer).2.solver := by
  have asked {values : List (QuantityId × K)} {producers : List (QuantityId × Producer K)}
      (answered : produceAll pointer l.quantities l.scheduler.producers = (.ok values, producers)) :
      P (suggestAll (values ++ l.scheduler.pending) l.solver).2 := by
    refine suggestAll_invariant (fun s member before kept => suggested s before ?_ kept) start
    rcases List.mem_append.mp member with made | waiting
    · exact produced _ _ answered s made
    · exact queued s waiting
  have ended := tick_cases pointer l
  generalize l.tick pointer = reply at ended
  cases ended with
  | stopped | idle => exact start
  | refused answered cut =>
    have kept := asked answered
    rwa [cut] at kept
  | unsettled answered taken _ failed =>
    have kept := asked answered
    rw [taken] at kept
    have final := resolved _ kept
    rwa [failed] at final
  | settled answered taken _ settles =>
    have kept := asked answered
    rw [taken] at kept
    have final := resolved _ kept
    rwa [settles] at final

end ReactiveLayout.Loop
