import ReactiveLayout.Proofs.Mirror
import ReactiveLayout.Proofs.Report
import ReactiveLayout.Proofs.Settlement

/-! A scheduler whose table grows between the ticks. What it takes as reported is a list that was as long as the table at
the start, and a resolution fills it up with zeros. So a quantity of the start is measured against the value that it was
declared with until its first report, but one that was added later against zero. -/
namespace ReactiveLayout
variable {K σ : Type} [Scalar K] [Solver σ K]

/-- What can happen to a loop with a table that grows. A direct call to the solver may be any change of its state. -/
inductive Turn (K σ : Type) where
  | tick (pointer : Pointer K)
  | queue (id : QuantityId) (value : K)
  /-- A quantity is added, unless its name is taken, and registered at its value. -/
  | declare (name : String) (value : K) (strength : Strength)
  | solver (call : σ → σ)

/-- A loop with the value last reported for each quantity and the one that it was declared with. -/
structure Chronicle (K σ : Type) where
  loop : Loop K σ
  reported : Mirror K
  declared : Mirror K

namespace Chronicle

def start (producers : List (QuantityId × Producer K)) (t : QuantityTable K) (tolerance : K) (solver : σ) :
    Chronicle K σ where
  loop := ⟨.start producers t tolerance, t, solver⟩
  reported _ := none
  declared := t.valueOf?

def step (c : Chronicle K σ) : Turn K σ → Chronicle K σ
  | .tick pointer =>
    let (answer, loop) := c.loop.tick pointer
    { c with loop, reported := answer.toOption.toList.foldl Mirror.overwrite c.reported }
  | .queue id value => { c with loop := { c.loop with scheduler := c.loop.scheduler.queue id value } }
  | .declare name value strength =>
    match c.loop.quantities.insert? name value with
    | none => c
    | some (id, quantities) =>
      { c with
        loop := { c.loop with quantities, solver := (Solver.register id value strength c.loop.solver).2 }
        declared := Function.update c.declared name (some value) }
  | .solver call => { c with loop := { c.loop with solver := call c.loop.solver } }

def run (c : Chronicle K σ) (turns : List (Turn K σ)) : Chronicle K σ := turns.foldl step c

/-- What a quantity is measured against until its first report. -/
def opening (t : QuantityTable K) (name : String) (declared : K) : K := if name ∈ t.names then declared else 0

/-- The invariant of a run from a table. -/
structure Tracks (t : QuantityTable K) (tolerance : K) (c : Chronicle K σ) : Prop where
  unique : c.loop.quantities.names.Nodup
  tolerance : c.loop.scheduler.tolerance = tolerance
  older : ∀ name ∈ t.names, name ∈ c.loop.quantities.names
  unreported : ∀ name ∉ c.loop.quantities.names, c.reported name = none
  short : c.loop.scheduler.reported.length ≤ c.loop.quantities.size
  baseline : ∀ id q, c.loop.quantities.entries[id]? = some q → ∃ declared, c.declared q.name = some declared ∧
    c.loop.scheduler.baseline id = (c.reported q.name).getD (opening t q.name declared)

variable {t : QuantityTable K} {tolerance : K} {c : Chronicle K σ}

omit [Solver σ K] in
theorem start_tracks (unique : t.names.Nodup) (producers : List (QuantityId × Producer K)) (tolerance : K) (solver : σ) :
    (start producers t tolerance solver).Tracks t tolerance := by
  refine ⟨unique, rfl, fun _ member => member, fun _ _ => rfl, Nat.le_of_eq (List.length_map _), ?_⟩
  intro id q found
  refine ⟨q.value, QuantityTable.valueOf?_of_getElem? unique found, ?_⟩
  have named : q.name ∈ t.names := List.mem_map_of_mem (List.mem_of_getElem? found)
  have reported : (t.entries.map (·.value))[id]? = some q.value := by
    rw [List.getElem?_map]
    exact congrArg (Option.map (·.value)) found
  change (t.entries.map (·.value)).getD id 0 = opening t q.name q.value
  rw [opening, if_pos named, List.getD_eq_getElem?_getD, reported, Option.getD_some]

/-- A resolution overwrites the baseline of what has moved, and reports just that. -/
theorem Tracks.collect (tracked : c.Tracks t tolerance) :
    (Chronicle.mk c.loop.collect.2 (c.reported.overwrite c.loop.collect.1) c.declared).Tracks t tolerance := by
  obtain ⟨unique, same, older, unreported, short, baseline⟩ := tracked
  have names := c.loop.collect_names
  refine ⟨names ▸ unique, same, names ▸ older, ?_, ?_, ?_⟩
  · intro name absent
    dsimp only at absent ⊢
    rw [names] at absent
    have silent : c.loop.collect.1.get? name = none := by
      rw [ChangeSet.get?, Loop.changes_collect, ← Option.not_isSome_iff_eq_none, NameTable.lookup_isSome_iff]
      exact fun listed => absent ((Loop.names_moves_sublist _).subset listed)
    rw [Mirror.overwrite, silent, unreported name absent, Option.none_or]
  · dsimp only
    rw [Loop.reported_collect_length, Loop.collect_size]
    exact Nat.max_le.mpr ⟨Nat.le_refl _, short⟩
  · intro id settled found
    obtain ⟨q, old, rfl⟩ := Option.map_eq_some_iff.mp ((Loop.getElem?_settle _ _ _ _ _ _).symm.trans found)
    obtain ⟨declared, known, before⟩ := baseline id q old
    have below : id < c.loop.quantities.size := (List.getElem?_eq_some_iff.mp old).1
    have reported : c.loop.collect.1.get? q.name = Loop.move? c.loop.scheduler.tolerance (Solver.value? c.loop.solver)
        c.loop.scheduler.baseline id := by
      rw [ChangeSet.get?, Loop.changes_collect, Loop.lookup_moves unique old]
    refine ⟨declared, known, ?_⟩
    dsimp only
    rw [Loop.baseline_collect, if_pos below, before, Mirror.overwrite, reported, Option.getD_or]

omit [Solver σ K] in
theorem Tracks.called (tracked : c.Tracks t tolerance) (producers : List (QuantityId × Producer K)) (ticks : Nat)
    (solver : σ) : (Chronicle.mk (c.loop.called producers ticks solver) c.reported c.declared).Tracks t tolerance :=
  ⟨tracked.unique, tracked.tolerance, tracked.older, tracked.unreported, tracked.short, tracked.baseline⟩

theorem Tracks.tick (tracked : c.Tracks t tolerance) (pointer : Pointer K) :
    (c.step (.tick pointer)).Tracks t tolerance := by
  have ended := Loop.tick_cases pointer c.loop
  change (Chronicle.mk (c.loop.tick pointer).2
    ((c.loop.tick pointer).1.toOption.toList.foldl Mirror.overwrite c.reported) c.declared).Tracks t tolerance
  generalize c.loop.tick pointer = reply at ended
  cases ended with
  | stopped | refused | unsettled => exact tracked.called _ _ _
  | idle => exact tracked.called _ _ _
  | settled => exact (tracked.called _ _ _).collect

/-- A further quantity has no report, and the baseline that is filled in for it is zero. -/
theorem Tracks.declare (tracked : c.Tracks t tolerance) (name : String) (value : K) (strength : Strength) :
    (c.step (.declare name value strength)).Tracks t tolerance := by
  unfold step
  dsimp only
  split
  · exact tracked
  · rename_i id quantities inserted
    obtain ⟨fresh, rfl, rfl⟩ := QuantityTable.insert?_eq_some_iff.mp inserted
    obtain ⟨unique, same, older, unreported, short, baseline⟩ := tracked
    have absent : name ∉ c.loop.quantities.names := QuantityTable.id?_eq_none_iff.mp fresh
    have names : (⟨c.loop.quantities.entries ++ [⟨name, value⟩]⟩ : QuantityTable K).names =
        c.loop.quantities.names ++ [name] := List.map_append
    refine ⟨?_, same, ?_, ?_, ?_, ?_⟩
    · rw [names, List.nodup_append]
      refine ⟨unique, List.nodup_singleton _, ?_⟩
      intro other old added new same
      obtain rfl := List.mem_singleton.mp new
      exact absent (same ▸ old)
    · intro other member
      rw [names]
      exact List.mem_append_left _ (older other member)
    · intro other missing
      rw [names] at missing
      exact unreported other fun old => missing (List.mem_append_left _ old)
    · exact Nat.le_trans short (by simp [QuantityTable.size])
    · intro other q found
      have place := (QuantityTable.get?_concat c.loop.quantities ⟨name, value⟩ other).symm.trans found
      split at place
      · rename_i here
        obtain rfl := Option.some.inj place
        refine ⟨value, Function.update_self _ _ _, ?_⟩
        have later : name ∉ t.names := fun old => absent (older name old)
        rw [unreported name absent, opening, if_neg later, here]
        exact List.getD_eq_default _ _ short
      · obtain ⟨declared, known, before⟩ := baseline other q place
        have different : q.name ≠ name := fun same =>
          absent (same ▸ List.mem_map_of_mem (List.mem_of_getElem? place))
        exact ⟨declared, (Function.update_of_ne different _ _).trans known, before⟩

theorem step_tracks (tracked : c.Tracks t tolerance) (turn : Turn K σ) : (c.step turn).Tracks t tolerance := by
  cases turn with
  | tick pointer => exact tracked.tick pointer
  | declare name value strength => exact tracked.declare name value strength
  | queue | solver =>
    exact ⟨tracked.unique, tracked.tolerance, tracked.older, tracked.unreported, tracked.short, tracked.baseline⟩

theorem run_tracks (tracked : c.Tracks t tolerance) (turns : List (Turn K σ)) : (c.run turns).Tracks t tolerance := by
  induction turns generalizing c with
  | nil => exact tracked
  | cons turn rest ih => exact ih (step_tracks tracked turn)

theorem Tracks.reports (tracked : c.Tracks t tolerance) {pointer : Pointer K} {after : σ}
    (resolves : Loop.Resolves pointer c.loop after) : ∃ changes, (c.loop.tick pointer).1 = .ok changes ∧
      ∀ name value, (name, value) ∈ changes.changes ↔ ∃ id declared, c.loop.quantities.id? name = some id ∧
        c.declared name = some declared ∧ Solver.value? after id = some value ∧
          Loop.Moved tolerance value ((c.reported name).getD (opening t name declared)) := by
  obtain ⟨producers, ticked⟩ := Loop.tick_of_resolves resolves
  refine ⟨_, congrArg Prod.fst ticked, ?_⟩
  intro name value
  obtain ⟨unique, same, _, _, _, baseline⟩ := tracked
  rw [Loop.changes_collect, Loop.mem_moves]
  constructor
  · rintro ⟨id, q, found, rfl, moves⟩
    obtain ⟨settled, far⟩ := Loop.move?_eq_some_iff.mp moves
    obtain ⟨declared, known, before⟩ := baseline id q found
    refine ⟨id, declared, (QuantityTable.id?_eq_some_iff unique).mpr ⟨q, found, rfl⟩, known, settled, ?_⟩
    rw [← before, ← same]
    exact Loop.moved_iff.mp far
  · rintro ⟨id, declared, numbered, known, settled, far⟩
    obtain ⟨q, found, rfl⟩ := (QuantityTable.id?_eq_some_iff unique).mp numbered
    obtain ⟨other, knownToo, before⟩ := baseline id q found
    obtain rfl : declared = other := Option.some.inj (known.symm.trans knownToo)
    rw [← before, ← same] at far
    exact ⟨id, q, found, rfl, Loop.move?_eq_some_iff.mpr ⟨settled, Loop.moved_iff.mpr far⟩⟩

/-- Over a run of a scheduler whose table grows, a resolving tick reports a quantity if and only if its resolved value
has moved from the value last reported for it or, without a report so far, from the value that it was declared with. For
a quantity that was added after the start, it is zero in place of the declared value. -/
theorem growing_run_reports (producers : List (QuantityId × Producer K)) (t : QuantityTable K) (unique : t.names.Nodup)
    (tolerance : K) (solver : σ) (turns : List (Turn K σ)) (pointer : Pointer K) (after : σ) :
    let c := (start producers t tolerance solver).run turns
    Loop.Resolves pointer c.loop after → ∃ changes, (c.loop.tick pointer).1 = .ok changes ∧
      ∀ name value, (name, value) ∈ changes.changes ↔ ∃ id declared, c.loop.quantities.id? name = some id ∧
        c.declared name = some declared ∧ Solver.value? after id = some value ∧
          Loop.Moved tolerance value ((c.reported name).getD (opening t name declared)) :=
  fun resolves => (run_tracks (start_tracks unique producers tolerance solver) turns).reports resolves

def single : QuantityTable Rat := ⟨[⟨"x", 1⟩]⟩

def singleSolver : Recorder Rat := (({} : Recorder Rat).register 0 1 .strong).2

theorem single_growing_run_reports :
    let turns : List (Turn Rat (Recorder Rat)) :=
      [.tick ⟨0, 0⟩, .declare "y" 0 .strong, .declare "x" 9 .weak, .queue 1 5, .tick ⟨0, 0⟩, .queue 0 2]
    let c := (start [] single 0 singleSolver).run turns
    single.names.Nodup ∧ ∃ after, Loop.Resolves ⟨0, 0⟩ c.loop after ∧ ∃ changes,
      (c.loop.tick ⟨0, 0⟩).1 = .ok changes ∧
        ∀ name value, (name, value) ∈ changes.changes ↔ ∃ id declared, c.loop.quantities.id? name = some id ∧
          c.declared name = some declared ∧ Solver.value? after id = some value ∧
            Loop.Moved 0 value ((c.reported name).getD (opening single name declared)) := by
  intro turns c
  have unique : single.names.Nodup := by decide
  have resolved : c.loop.Resolved ⟨0, 0⟩ := by decide +kernel
  obtain ⟨after, resolves⟩ := Loop.resolves_of_resolved resolved
  exact ⟨unique, after, resolves, growing_run_reports [] single unique 0 singleSolver turns ⟨0, 0⟩ after resolves⟩

/-- A quantity that was added at five and never moved is reported all the same. -/
theorem unmoved_quantity_reported :
    let c := (start [] single 0 singleSolver).run [.declare "y" 5 .strong]
    c.declared "y" = some 5 ∧ c.reported "y" = none ∧
      (c.loop.tick ⟨0, 0⟩).1.toOption.map (·.changes) = some [("y", 5)] ∧ ¬ Loop.Moved (0 : Rat) 5 5 :=
  ⟨by decide +kernel, by decide +kernel, by decide +kernel, mt Loop.moved_iff.mpr (by decide +kernel)⟩

end Chronicle
end ReactiveLayout
