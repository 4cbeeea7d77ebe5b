import Mathlib
import ReactiveLayout.Proofs.Commands

/-! A consumer that sees nothing of a layout but its change sets keeps a mirror of the quantities. The mirror is what
the scheduler takes as reported, position by position; one settling preserves that, hence every run does. -/
namespace ReactiveLayout

abbrev Mirror (K : Type) := String → Option K

namespace Mirror
variable {K : Type}

/-- The declared values, zero for what is produced. -/
def start [Scalar K] (spec : Specification K) : Mirror K := fun name => (spec.quantities.get? name).map Term.initial

def overwrite (mirror : Mirror K) (changes : ChangeSet K) : Mirror K := fun name => (changes.get? name).or (mirror name)

theorem foldl_filter_nonempty (mirror : Mirror K) (seen : List (ChangeSet K)) :
    (seen.filter fun changes => !changes.isEmpty).foldl overwrite mirror = seen.foldl overwrite mirror := by
  induction seen generalizing mirror with
  | nil => rfl
  | cons changes rest ih =>
    obtain ⟨listed⟩ := changes
    cases listed with
    | nil => exact ih mirror
    | cons change more => exact ih (mirror.overwrite ⟨change :: more⟩)

end Mirror

namespace Loop
variable {K : Type} [Scalar K] {tolerance : K}

/-- A value counts as moved from a mirrored one if it is unequal without a tolerance, and farther away than the
tolerance with one. -/
def Moved (tolerance value mirrored : K) : Prop :=
  (0 < tolerance ∧ tolerance < Scalar.magnitude (value - mirrored)) ∨ (¬ 0 < tolerance ∧ (value == mirrored) = false)

/-- A mirrored value is the value itself, compares equal to it without a tolerance, or is no farther from it than the
tolerance. -/
def Close (tolerance value mirrored : K) : Prop :=
  value = mirrored ∨ (¬ 0 < tolerance ∧ (value == mirrored) = true) ∨
    (0 < tolerance ∧ ¬ tolerance < Scalar.magnitude (value - mirrored))

theorem moved_iff {value reported : K} : moved tolerance value reported = true ↔ Moved tolerance value reported := by
  unfold moved Moved
  by_cases positive : 0 < tolerance
  · simp [positive]
  · simp [positive]

theorem close_of_not_moved {value reported : K} (still : ¬ moved tolerance value reported = true) :
    Close tolerance value reported := by
  unfold moved at still
  by_cases positive : 0 < tolerance
  · exact .inr (.inr ⟨positive, by simpa [positive] using still⟩)
  · exact .inr (.inl ⟨positive, by simpa [positive] using still⟩)

/-- A quantity that is mirrored at what was last reported for it, and close to that. -/
def Mirrored (tolerance : K) (mirror : Mirror K) (q : Quantity K) (reported : K) : Prop :=
  mirror q.name = some reported ∧ Close tolerance q.value reported

theorem lookup_settle_changes (values : QuantityId → Option K) (id : QuantityId) {entries : List (Quantity K)}
    (reported : List K) {name : String} (absent : name ∉ entries.map (·.name)) :
    (settle tolerance values id entries reported).changes.lookup name = none := by
  rw [← Option.not_isSome_iff_eq_none, NameTable.lookup_isSome_iff]
  exact fun listed => absent ((settle_changes_sublist tolerance values id entries reported).subset listed)

/-- Overwritten by the changes of a settling, the mirror follows the settled quantities. -/
theorem settle_mirrored {mirror : Mirror K} {entries : List (Quantity K)} {reported : List K}
    (values : QuantityId → Option K) (id : QuantityId) (unique : (entries.map (·.name)).Nodup)
    (aligned : List.Forall₂ (Mirrored tolerance mirror) entries reported) :
    List.Forall₂ (Mirrored tolerance (mirror.overwrite ⟨(settle tolerance values id entries reported).changes⟩))
      (settle tolerance values id entries reported).entries
      (settle tolerance values id entries reported).reported := by
  induction aligned generalizing id with
  | nil => exact .nil
  | @cons q baseline rest later first _ ih =>
    obtain ⟨alone, unique⟩ := List.nodup_cons.mp unique
    have silent : (settle tolerance values (id + 1) rest later).changes.lookup q.name = none :=
      lookup_settle_changes values (id + 1) later alone
    have quiet : (mirror.overwrite ⟨(settle tolerance values (id + 1) rest later).changes⟩) q.name = some baseline := by
      rw [Mirror.overwrite, ChangeSet.get?, silent, Option.none_or]
      exact first.1
    rcases settle_cons tolerance values id q rest (baseline :: later) with
      ⟨_, same⟩ | ⟨value, _, _, same⟩ | ⟨value, _, near, same⟩
    · rw [same]
      exact .cons ⟨quiet, first.2⟩ (ih _ unique)
    · rw [same]
      have apart : ∀ next ∈ (settle tolerance values (id + 1) rest later).entries, next.name ≠ q.name := by
        intro next member equal
        refine alone ?_
        rw [← settle_names tolerance values (id + 1) rest later]
        exact List.mem_map.mpr ⟨next, member, equal⟩
      refine .cons ⟨?_, .inl rfl⟩ (((List.forall₂_and_left _ _).mpr ⟨apart, ih (id + 1) unique⟩).imp ?_)
      · rw [Mirror.overwrite, ChangeSet.get?, NameTable.lookup_cons, if_pos rfl, Option.some_or]
      · rintro next last ⟨other, mirrored, close⟩
        refine ⟨?_, close⟩
        rw [Mirror.overwrite, ChangeSet.get?, NameTable.lookup_cons, if_neg other]
        exact mirrored
    · rw [same]
      exact .cons ⟨quiet, close_of_not_moved near⟩ (ih _ unique)

variable {σ : Type} {spec : Specification K} {l : Loop K σ} {mirror : Mirror K}

/-- The invariant of a layout and a mirror: the mirror holds the declared quantities at what was last reported. -/
structure Tracks (spec : Specification K) (tolerance : K) (l : Loop K σ) (mirror : Mirror K) : Prop where
  names : l.quantities.names = spec.quantities.names
  fixed : l.scheduler.tolerance = tolerance
  aligned : List.Forall₂ (Mirrored tolerance mirror) l.quantities.entries l.scheduler.reported
  unknown : ∀ name ∉ spec.quantities.names, mirror name = none

theorem Tracks.unique (tracked : Tracks spec tolerance l mirror) : l.quantities.names.Nodup :=
  tracked.names ▸ spec.quantities.names_nodup

theorem Tracks.called (tracked : Tracks spec tolerance l mirror) (producers : List (QuantityId × Producer K))
    (ticks : Nat) (solver : σ) : Tracks spec tolerance (l.called producers ticks solver) mirror :=
  ⟨tracked.names, tracked.fixed, tracked.aligned, tracked.unknown⟩

variable [Solver σ K]

theorem Tracks.collect (tracked : Tracks spec tolerance l mirror) :
    Tracks spec tolerance l.collect.2 (mirror.overwrite l.collect.1) where
  names := by
    rw [← tracked.names]
    exact settle_names _ _ _ _ _
  fixed := tracked.fixed
  aligned := by
    have followed := settle_mirrored (Solver.value? l.solver) 0 tracked.unique tracked.aligned
    rw [← tracked.fixed] at followed ⊢
    exact followed
  unknown name absent := by
    have undeclared : name ∉ l.quantities.entries.map (·.name) := by
      rw [← tracked.names] at absent
      exact absent
    rw [Mirror.overwrite, tracked.unknown name absent, Option.or_none]
    exact lookup_settle_changes _ _ _ undeclared

/-- A tick, however it ends, keeps a mirror on track that is overwritten by what it reports. -/
theorem Tracks.tick (tracked : Tracks spec tolerance l mirror) (pointer : Pointer K) :
    Tracks spec tolerance (l.tick pointer).2 ((l.tick pointer).1.toOption.toList.foldl Mirror.overwrite mirror) := by
  have ended := tick_cases pointer l
  generalize l.tick pointer = reply at ended
  cases ended with
  | stopped | refused | unsettled => exact tracked.called _ _ _
  | idle => exact tracked.called _ _ _
  | settled => exact (tracked.called _ _ _).collect

/-- What a resolution reports, told by the mirror alone. -/
theorem Tracks.mem_changes (tracked : Tracks spec tolerance l mirror) (name : String) (value : K) :
    (name, value) ∈ l.collect.1.changes ↔
      ∃ id mirrored, l.quantities.id? name = some id ∧ mirror name = some mirrored ∧
        Solver.value? l.solver id = some value ∧ Moved tolerance value mirrored := by
  have baselines : List.Forall₂ (fun q baseline => mirror q.name = some baseline) l.quantities.entries
      l.scheduler.reported := tracked.aligned.imp fun _ _ mirrored => mirrored.1
  have listed := mem_settle_changes l.scheduler.tolerance (Solver.value? l.solver) 0 baselines name value
  refine listed.trans ?_
  simp only [QuantityTable.id?_eq_some_iff tracked.unique, moved_iff, tracked.fixed, Nat.zero_add]
  constructor
  · rintro ⟨id, q, mirrored, found, named, known, settled, far⟩
    exact ⟨id, mirrored, ⟨q, found, named⟩, known, settled, far⟩
  · rintro ⟨id, mirrored, ⟨q, found, named⟩, known, settled, far⟩
    exact ⟨id, q, mirrored, found, named, known, settled, far⟩

theorem Tracks.changes_ordered (tracked : Tracks spec tolerance l mirror) :
    l.collect.1.names.Pairwise l.quantities.Precedes :=
  (QuantityTable.names_pairwise_precedes tracked.unique).sublist (settle_changes_sublist _ _ _ _ _)

omit [Solver σ K] in
theorem Tracks.close (tracked : Tracks spec tolerance l mirror) {name : String} (declared : name ∈ spec.quantities.names) :
    ∃ value mirrored, l.quantities.valueOf? name = some value ∧ mirror name = some mirrored ∧
      Close tolerance value mirrored := by
  obtain ⟨q, member, rfl⟩ := List.mem_map.mp (tracked.names ▸ declared : name ∈ l.quantities.names)
  obtain ⟨id, found⟩ := List.mem_iff_getElem?.mp member
  obtain ⟨below, _⟩ := List.getElem?_eq_some_iff.mp found
  have reported : id < l.scheduler.reported.length := tracked.aligned.length_eq ▸ below
  have mirrored := tracked.aligned.get below reported
  rw [List.get_eq_getElem, (List.getElem?_eq_some_iff.mp found).2] at mirrored
  exact ⟨q.value, _, QuantityTable.valueOf?_of_getElem? tracked.unique found, mirrored.1, mirrored.2⟩

end Loop

structure Watched (K σ : Type) where
  layout : Layout K σ
  mirror : Mirror K

variable {K σ : Type} [Scalar K] [Solver σ K]

namespace Layout

/-- The change sets that an action shows to a consumer. A tick for a surface shows what the surface is given, any other
tick what it answers. -/
def changeSets (s : Layout K σ) : Action K σ → List (ChangeSet K)
  | .command (.tick pointer) => (s.tick pointer).1.toOption.toList
  | .command (.tickInto pointer) => (s.tickInto pointer).1.2
  | .command (.suggest _ _) | .solver _ => []

omit [Scalar K] [Solver σ K] in
theorem shown_eq_filter (answer : Except (LayoutError K) (ChangeSet K)) :
    shown answer = answer.toOption.toList.filter fun changes => !changes.isEmpty := by
  cases answer with
  | error e => rfl
  | ok changes =>
    by_cases nothing : changes.isEmpty = true
    · simp [shown, Except.toOption, nothing]
    · simp [shown, Except.toOption, nothing]

theorem build_tracks {spec : Specification K} {settings : Settings K} {solver : σ} {s : Layout K σ}
    (built : build spec settings solver = .ok s) :
    Loop.Tracks spec settings.changeTolerance s.toLoop (Mirror.start spec) := by
  obtain ⟨_, c, after, accepted, rfl⟩ := build_ok_iff.mp built
  have compiled := Compilation.compile_ok accepted
  refine ⟨compiled.quantity_names, rfl, ?_, ?_⟩
  · apply List.forall₂_map_right_iff.mpr
    apply List.forall₂_same.mpr
    intro q member
    refine ⟨?_, .inl rfl⟩
    rw [started, compiled.quantities] at member
    obtain ⟨entry, declared, rfl⟩ := List.mem_map.mp member
    rw [Mirror.start, NameTable.get?_of_mem declared, Option.map_some]
  · intro name absent
    rw [Mirror.start, (NameTable.get?_eq_none_iff _ _).mpr absent, Option.map_none]

end Layout

namespace Watched

def step (w : Watched K σ) (action : Layout.Action K σ) : Watched K σ :=
  ⟨w.layout.perform action, (w.layout.changeSets action).foldl Mirror.overwrite w.mirror⟩

def run (w : Watched K σ) (actions : List (Layout.Action K σ)) : Watched K σ := actions.foldl step w

/-- The mirror holds exactly the declared quantities, each close to its value. -/
def InStep (spec : Specification K) (tolerance : K) (w : Watched K σ) : Prop :=
  (∀ name ∈ spec.quantities.names, ∃ value mirrored, w.layout.value? name = some value ∧
    w.mirror name = some mirrored ∧ Loop.Close tolerance value mirrored) ∧
  ∀ name ∉ spec.quantities.names, w.layout.value? name = none ∧ w.mirror name = none

/-- What the next tick reports. -/
structure Reports (tolerance : K) (pointer : Pointer K) (w : Watched K σ) : Prop where
  /-- If it resolves, the quantities whose resolved value moved from the mirrored one, in the order of their numbers. -/
  resolved : ∀ after, Loop.Resolves pointer w.layout.toLoop after → ∃ changes,
    (w.layout.tick pointer).1 = .ok changes ∧ (w.layout.tick pointer).2.solver = after ∧
      changes.names.Pairwise w.layout.quantities.Precedes ∧
      ∀ name value, (name, value) ∈ changes.changes ↔ ∃ id mirrored, w.layout.quantities.id? name = some id ∧
        w.mirror name = some mirrored ∧ Solver.value? after id = some value ∧ Loop.Moved tolerance value mirrored
  /-- If it does not, nothing, and every value stays. -/
  quiet : (∀ after, ¬ Loop.Resolves pointer w.layout.toLoop after) →
    (∀ changes, (w.layout.tick pointer).1 = .ok changes → changes = .empty) ∧
      (w.layout.tick pointer).2.snapshot = w.layout.snapshot
  /-- A surface is given that, unless it is empty, and is all that makes a difference. -/
  surface : w.layout.tickInto pointer = (((w.layout.tick pointer).1.map (·.size),
    (w.layout.tick pointer).1.toOption.toList.filter fun changes => !changes.isEmpty), (w.layout.tick pointer).2)

variable {spec : Specification K} {tolerance : K} {w : Watched K σ}

theorem step_tracks (tracked : Loop.Tracks spec tolerance w.layout.toLoop w.mirror) (action : Layout.Action K σ) :
    Loop.Tracks spec tolerance (w.step action).layout.toLoop (w.step action).mirror := by
  cases action with
  | command command =>
    cases command with
    | tick pointer => exact tracked.tick pointer
    | tickInto pointer =>
      have ticked := tracked.tick pointer
      rw [← Mirror.foldl_filter_nonempty, ← Layout.shown_eq_filter] at ticked
      exact ticked
    | suggest name value =>
      change Loop.Tracks spec tolerance (w.layout.suggest name value).2.toLoop w.mirror
      rcases Layout.suggest_cases w.layout name value with same | ⟨id, _, _, queues⟩
      · rwa [same]
      · rw [queues]
        exact ⟨tracked.names, tracked.fixed, tracked.aligned, tracked.unknown⟩
  | solver call => exact ⟨tracked.names, tracked.fixed, tracked.aligned, tracked.unknown⟩

theorem run_tracks (tracked : Loop.Tracks spec tolerance w.layout.toLoop w.mirror)
    (actions : List (Layout.Action K σ)) :
    Loop.Tracks spec tolerance (w.run actions).layout.toLoop (w.run actions).mirror := by
  induction actions generalizing w with
  | nil => exact tracked
  | cons action rest ih => exact ih (step_tracks tracked action)

omit [Solver σ K] in
theorem inStep_of_tracks (tracked : Loop.Tracks spec tolerance w.layout.toLoop w.mirror) : InStep spec tolerance w := by
  constructor
  · intro name declared
    exact tracked.close declared
  · intro name absent
    refine ⟨?_, tracked.unknown name absent⟩
    apply QuantityTable.valueOf?_of_notMem
    rw [tracked.names]
    exact absent

theorem reports_of_tracks (tracked : Loop.Tracks spec tolerance w.layout.toLoop w.mirror) (pointer : Pointer K) :
    Reports tolerance pointer w where
  resolved after resolves := by
    obtain ⟨producers, ticked⟩ := Loop.tick_of_resolves resolves
    have settled := tracked.called producers (w.layout.scheduler.ticks + 1) after
    refine ⟨_, congrArg Prod.fst ticked, ?_, settled.changes_ordered, settled.mem_changes⟩
    exact congrArg (fun reply => reply.2.solver) ticked
  quiet silent := by
    obtain ⟨nothing, producers, ticks, solver, left⟩ := Loop.tick_of_not_resolves silent
    refine ⟨nothing, ?_⟩
    exact congrArg (fun loop => loop.quantities.snapshot) left
  surface := by
    rw [← Layout.shown_eq_filter]
    rfl

/-- A consumer that only sees change sets never drifts from the layout, whatever happens to it after it was built. -/
theorem mirror_keeps_up {settings : Settings K} {solver : σ} {s : Layout K σ}
    (built : Layout.build spec settings solver = .ok s) (actions : List (Layout.Action K σ)) (pointer : Pointer K) :
    let w := (⟨s, Mirror.start spec⟩ : Watched K σ).run actions
    InStep spec settings.changeTolerance w ∧ Reports settings.changeTolerance pointer w := by
  have tracked := run_tracks (w := ⟨s, Mirror.start spec⟩) (Layout.build_tracks built) actions
  exact ⟨inStep_of_tracks tracked, reports_of_tracks tracked pointer⟩

/-- One quantity follows the pointer and the other stays where it is suggested to be. -/
def followed : Specification Rat :=
  let spec : Specification Rat := {}
  spec
    |>.declare "cursor" (.producer .pointerX)
    |>.declare "width" (.number 7)

def coarse : Settings Rat := ⟨.strong, true, 1 / 2⟩

theorem followed_builds : ∃ s, Layout.build followed coarse ({} : Recorder Rat) = .ok s := by
  have ok : (Layout.build followed coarse ({} : Recorder Rat)).isOk = true := by cbv
  generalize Layout.build followed coarse ({} : Recorder Rat) = answer at ok
  cases answer with
  | error e => cases ok
  | ok s => exact ⟨s, rfl⟩

theorem followed_mirror_keeps_up : ∃ s, Layout.build followed coarse ({} : Recorder Rat) = .ok s ∧
    let w := (⟨s, Mirror.start followed⟩ : Watched Rat (Recorder Rat)).run
      [.command (.tick ⟨1 / 3, 0⟩), .command (.suggest "width" 8), .command (.tickInto ⟨2 / 3, 0⟩),
        .solver (·.reject 0), .command (.tick ⟨2, 0⟩)]
    InStep followed coarse.changeTolerance w ∧ Reports coarse.changeTolerance ⟨3, 0⟩ w := by
  obtain ⟨s, built⟩ := followed_builds
  exact ⟨s, built, mirror_keeps_up built _ _⟩

end Watched
end ReactiveLayout
