import ReactiveLayout.Proofs.Construction
import ReactiveLayout.Proofs.Tick

/-! What happens to a running layout. A layout starts as its compilation and the solver behind that; from then on a
command runs a tick or queues a finite value, and between commands the solver may be called past the layout. A run of
commands is a run without such calls. So whatever ticks and finite suggestions keep, every run of commands keeps. -/
namespace ReactiveLayout.Layout
variable {K σ : Type} [Scalar K]

/-- The layout that a compilation starts as. -/
def started (settings : Settings K) (c : Compilation K) (solver : σ) : Layout K σ where
  scheduler := .start c.model.producers c.model.quantities settings.changeTolerance
  quantities := c.model.quantities
  solver
  formulas := c.model.formulas
  prebuilt := c.prebuilt
  rules := c.rules
  plan := c.plan
  settings

variable [Solver σ K]

theorem build_ok_iff {spec : Specification K} {settings : Settings K} {solver : σ} {s : Layout K σ} :
    build spec settings solver = .ok s ↔ settings.validate = .ok () ∧ ∃ c after,
      Compilation.compile spec ⟨settings.editStrength, settings.registerRules⟩ solver = (.ok c, after) ∧
        s = started settings c after := by
  unfold build
  cases settings.validate with
  | error e => simp
  | ok =>
    dsimp only
    generalize Compilation.compile spec ⟨settings.editStrength, settings.registerRules⟩ solver = reply
    obtain ⟨answer, after⟩ := reply
    cases answer with
    | error e => simp
    | ok c => simp [started, eq_comm]

/-- What a user asks of a running layout. -/
inductive Command (K : Type) where
  | tick (pointer : Pointer K)
  | tickInto (pointer : Pointer K)
  | suggest (name : String) (value : K)

/-- What can happen to a running layout. A direct call to its solver may be any change of the solver's state. -/
inductive Action (K σ : Type) where
  | command (command : Command K)
  | solver (call : σ → σ)

def obey (s : Layout K σ) : Command K → Layout K σ
  | .tick pointer => (s.tick pointer).2
  | .tickInto pointer => (s.tickInto pointer).2
  | .suggest name value => (s.suggest name value).2

def perform (s : Layout K σ) : Action K σ → Layout K σ
  | .command command => s.obey command
  | .solver call => { s with solver := call s.solver }

def performAll (s : Layout K σ) (actions : List (Action K σ)) : Layout K σ := actions.foldl perform s

def follow (s : Layout K σ) (commands : List (Command K)) : Layout K σ := s.performAll (commands.map .command)

omit [Solver σ K] in
/-- A suggestion queues a finite value for a known quantity, or it changes nothing. -/
theorem suggest_cases (s : Layout K σ) (name : String) (value : K) :
    (s.suggest name value).2 = s ∨ ∃ id, s.quantities.id? name = some id ∧ Scalar.isFinite value = true ∧
      (s.suggest name value).2 = { s with scheduler := s.scheduler.queue id value } := by
  unfold suggest
  cases numbered : s.quantities.id? name with
  | none => exact .inl rfl
  | some id =>
    by_cases finite : Scalar.isFinite value = true
    · exact .inr ⟨id, rfl, finite, by simp only [finite, if_true]⟩
    · exact .inl (by simp only [finite, Bool.false_eq_true, if_false])

theorem obey_invariant {P : Layout K σ → Prop} (ticked : ∀ s pointer, P s → P (s.tick pointer).2)
    (queued : ∀ s id value, P s → Scalar.isFinite value = true → P { s with scheduler := s.scheduler.queue id value })
    {s : Layout K σ} (kept : P s) (command : Command K) : P (s.obey command) := by
  cases command with
  | tick pointer => exact ticked s pointer kept
  | tickInto pointer => exact ticked s pointer kept
  | suggest name value =>
    rcases suggest_cases s name value with same | ⟨id, _, finite, queues⟩
    · rwa [obey, same]
    · rw [obey, queues]
      exact queued s id value kept finite

theorem performAll_invariant {P : Layout K σ → Prop} (ticked : ∀ s pointer, P s → P (s.tick pointer).2)
    (queued : ∀ s id value, P s → Scalar.isFinite value = true → P { s with scheduler := s.scheduler.queue id value })
    {s : Layout K σ} (start : P s) (actions : List (Action K σ))
    (called : ∀ s (call : σ → σ), .solver call ∈ actions → P s → P { s with solver := call s.solver }) :
    P (s.performAll actions) := by
  refine List.foldlRecOn (motive := P) actions perform start fun s kept action member => ?_
  cases action with
  | command command => exact obey_invariant ticked queued kept command
  | solver call => exact called s call member kept

theorem follow_invariant {P : Layout K σ → Prop} (ticked : ∀ s pointer, P s → P (s.tick pointer).2)
    (queued : ∀ s id value, P s → Scalar.isFinite value = true → P { s with scheduler := s.scheduler.queue id value })
    {s : Layout K σ} (start : P s) (commands : List (Command K)) : P (s.follow commands) := by
  refine performAll_invariant ticked queued start _ fun _ _ member _ => ?_
  obtain ⟨_, _, same⟩ := List.mem_map.mp member
  cases same

end ReactiveLayout.Layout
