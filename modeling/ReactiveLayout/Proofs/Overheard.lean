import ReactiveLayout.Proofs.Commands
import ReactiveLayout.Proofs.RuleGrammar
import ReactiveLayout.Proofs.TickCalls

/-! What passes from a layout to its solver. A solver that is overheard keeps a list of all its inputs and answers as
before, so a layout goes the same way on it; and along the way no number of the list is ever other than finite. Both
are one simulation, which finite inputs alone have to keep. -/
namespace ReactiveLayout
variable {K ρ σ : Type} [Scalar K]

/-- Zero is an allowed weight and an allowed value. -/
structure Scalar.FiniteZero (K : Type) [Scalar K] : Prop where
  finite : Scalar.isFinite (0 : K) = true
  nonnegative : (0 : K) ≤ 0

theorem Scalar.finiteZero_float : Scalar.FiniteZero Float := ⟨rfl, by decide⟩

/-- The weight of a rule is a finite number and no less than zero. -/
def Rule.Weighed (rule : Rule K) : Prop := Scalar.isFinite rule.weight = true ∧ 0 ≤ rule.weight

namespace Solver

/-- All that a solver is given. -/
inductive Input (K : Type) where
  | register (id : QuantityId) (initial : K) (strength : Strength)
  | suggest (id : QuantityId) (value : K)
  | resolve
  | addRules (rules : List (Rule K))

/-- The numbers of an input are finite, and the weights among them not negative. -/
def Input.IsFinite : Input K → Prop
  | .register _ initial _ => Scalar.isFinite initial = true
  | .suggest _ value => Scalar.isFinite value = true
  | .resolve => True
  | .addRules rules => ∀ rule ∈ rules, rule.Weighed

/-- Equal answers, and states that are related. -/
structure Agree {ε α : Type} (R : ρ → σ → Prop) (reply : Reply ε α ρ) (other : Reply ε α σ) : Prop where
  answer : reply.1 = other.1
  after : R reply.2 other.2

theorem Agree.split {ε α : Type} {R : ρ → σ → Prop} {reply : Reply ε α ρ} {other : Reply ε α σ}
    (agree : Agree R reply other) :
    ∃ answer left right, reply = (answer, left) ∧ other = (answer, right) ∧ R left right :=
  ⟨reply.1, reply.2, other.2, rfl, Prod.ext agree.answer.symm rfl, agree.after⟩

/-- Related states show the same values, and every finite input gets the same answer from both and leaves them
related. -/
structure Simulates [Solver ρ K] [Solver σ K] (R : ρ → σ → Prop) : Prop where
  register : ∀ {id : QuantityId} {initial : K} {strength : Strength} {s : ρ} {t : σ}, Scalar.isFinite initial = true →
    R s t → Agree R (Solver.register id initial strength s) (Solver.register id initial strength t)
  suggest : ∀ {id : QuantityId} {value : K} {s : ρ} {t : σ}, Scalar.isFinite value = true → R s t →
    Agree R (Solver.suggest id value s) (Solver.suggest id value t)
  resolve : ∀ {s : ρ} {t : σ}, R s t → Agree R (Solver.resolve s) (Solver.resolve t)
  addRules : ∀ {rules : List (Rule K)} {s : ρ} {t : σ}, (∀ rule ∈ rules, rule.Weighed) → R s t →
    Agree R (Solver.addRules rules s) (Solver.addRules rules t)
  value? : ∀ {s : ρ} {t : σ}, R s t → Solver.value? s = Solver.value? t

end Solver

namespace Rule

theorem weighed_of_weightAt (zero : Scalar.FiniteZero K) {place : Option (Term K)} {weight : K}
    (written : WeightAt place weight) : Scalar.isFinite weight = true ∧ 0 ≤ weight := by
  cases written with
  | missing => exact ⟨zero.finite, zero.nonnegative⟩
  | number finite nonnegative => exact ⟨finite, nonnegative⟩

theorem weighed_of_compile (zero : Scalar.FiniteZero K) {scope : Scope K} {tuple : List (Term K)} {rule : Rule K}
    (compiled : compile scope tuple = .ok rule) : rule.Weighed := by
  cases writes_of_compile compiled with
  | relation _ _ _ _ _ _ _ _ fifth => exact weighed_of_weightAt zero fifth
  | stay _ _ _ _ _ third => exact weighed_of_weightAt zero third

theorem weighed_of_compileAll (zero : Scalar.FiniteZero K) {scope : Scope K} {tuples : List (List (Term K))}
    {rules : List (Rule K)} (compiled : compileAll scope tuples = .ok rules) : ∀ rule ∈ rules, rule.Weighed :=
  forall_of_compileAll (fun _ _ first => weighed_of_compile zero first) compiled

end Rule

variable [Solver ρ K] [Solver σ K] {R : ρ → σ → Prop} {s : ρ} {t : σ}

namespace Model

omit [Solver ρ K] [Solver σ K] in
theorem initialOf_finite (zero : Scalar.FiniteZero K) {name : String} {term : Term K} {initial : K}
    {producer : Option (Producer K)} (read : initialOf name term = .ok (initial, producer)) :
    Scalar.isFinite initial = true := by
  unfold initialOf at read
  cases term with
  | number value | descriptor value =>
    by_cases finite : Scalar.isFinite value = true
    · simp only [Term.classify, Term.kind?, finite, if_true] at read
      cases read
      exact finite
    · simp only [Term.classify, Term.kind?, finite, Bool.false_eq_true, if_false] at read
      cases read
  | producer source =>
    cases read
    exact zero.finite
  | reference | token | array | built => cases read

theorem addName_agree (zero : Scalar.FiniteZero K) (simulates : Solver.Simulates R) (related : R s t)
    (strength : Strength) (quantities formulas : NameTable (Term K)) (prebuilt : NameTable (Affine K)) (name : String)
    (m : Model K) : Solver.Agree R (addName strength quantities formulas prebuilt name m s)
      (addName strength quantities formulas prebuilt name m t) := by
  unfold addName
  split
  · unfold addQuantity
    split
    · exact ⟨rfl, related⟩
    · rename_i initial producer read
      split
      · exact ⟨rfl, related⟩
      · rename_i id table _
        obtain ⟨answer, left, right, first, second, after⟩ :=
          (simulates.register (initialOf_finite zero read) related : Solver.Agree R
            (Solver.register id initial strength s) (Solver.register id initial strength t)).split
        rw [first, second]
        cases answer <;> exact ⟨rfl, after⟩
  · split
    · exact ⟨rfl, related⟩
    · split <;> exact ⟨rfl, related⟩

theorem addNames_agree (zero : Scalar.FiniteZero K) (simulates : Solver.Simulates R) (related : R s t)
    (strength : Strength) (quantities formulas : NameTable (Term K)) (prebuilt : NameTable (Affine K))
    (names : List String) (m : Model K) :
    Solver.Agree R (addNames strength quantities formulas prebuilt names m s)
      (addNames strength quantities formulas prebuilt names m t) := by
  induction names generalizing quantities m s t with
  | nil => exact ⟨rfl, related⟩
  | cons name rest ih =>
    obtain ⟨answer, left, right, first, second, after⟩ :=
      (addName_agree zero simulates related strength quantities formulas prebuilt name m).split
    rw [addNames, addNames, first, second]
    cases answer with
    | error e => exact ⟨rfl, after⟩
    | ok m => exact ih after _ m

end Model

namespace Compilation

theorem submit_agree (simulates : Solver.Simulates R) (related : R s t) (options : BuildOptions) {rules : List (Rule K)}
    (weighed : ∀ rule ∈ rules, rule.Weighed) : Solver.Agree R (submit options rules s) (submit options rules t) := by
  unfold submit
  split
  · exact simulates.addRules weighed related
  · exact ⟨rfl, related⟩

theorem compile_agree (zero : Scalar.FiniteZero K) (simulates : Solver.Simulates R) (related : R s t)
    (spec : Specification K) (options : BuildOptions) :
    Solver.Agree R (compile spec options s) (compile spec options t) := by
  unfold compile
  split
  · exact ⟨rfl, related⟩
  · rename_i plan _
    obtain ⟨answer, left, right, first, second, after⟩ := (Model.addNames_agree zero simulates related
      options.editStrength spec.quantities spec.formulas spec.prebuilt plan.names {}).split
    rw [Model.build, Model.build, first, second]
    cases answer with
    | error e => exact ⟨rfl, after⟩
    | ok model =>
      dsimp only
      split
      · exact ⟨rfl, after⟩
      · rename_i rules compiled
        obtain ⟨answer, left, right, first, second, after⟩ :=
          (submit_agree simulates after options (Rule.weighed_of_compileAll zero compiled)).split
        rw [first, second]
        cases answer <;> exact ⟨rfl, after⟩

end Compilation

namespace Loop

omit [Solver ρ K] [Solver σ K] in
theorem produceAll_finite {pointer : Pointer K} {quantities : QuantityTable K}
    {producers after : List (QuantityId × Producer K)} {values : List (QuantityId × K)}
    (produced : produceAll pointer quantities producers = (.ok values, after)) :
    ∀ s ∈ values, Scalar.isFinite s.2 = true := by
  have answered := (produceAll_ok produced).1
  clear produced
  induction answered with
  | nil => exact fun _ member => (nomatch member)
  | cons first _ ih =>
    intro s member
    rcases List.mem_cons.mp member with rfl | later
    · have answer := first.2
      unfold Producer.answer at answer
      split at answer
      · cases answer
      · split at answer
        · rename_i finite
          cases answer
          exact finite
        · cases answer
    · exact ih s later

theorem suggestAll_agree (simulates : Solver.Simulates R) (related : R s t) {suggestions : List (QuantityId × K)}
    (finite : ∀ s ∈ suggestions, Scalar.isFinite s.2 = true) :
    Solver.Agree R (suggestAll suggestions s) (suggestAll suggestions t) := by
  induction suggestions generalizing s t with
  | nil => exact ⟨rfl, related⟩
  | cons first rest ih =>
    obtain ⟨id, value⟩ := first
    obtain ⟨answer, left, right, first, second, after⟩ :=
      (simulates.suggest (finite (id, value) List.mem_cons_self) related : Solver.Agree R
        (Solver.suggest id value s) (Solver.suggest id value t)).split
    rw [suggestAll, suggestAll, first, second]
    cases answer with
    | error e => exact ⟨rfl, after⟩
    | ok => exact ih after fun s member => finite s (List.mem_cons_of_mem _ member)

/-- Equal loops on related solvers, with nothing but finite values in the queue. -/
structure Related (R : ρ → σ → Prop) (l : Loop K ρ) (m : Loop K σ) : Prop where
  scheduler : l.scheduler = m.scheduler
  quantities : l.quantities = m.quantities
  solver : R l.solver m.solver
  finite : ∀ s ∈ m.scheduler.pending, Scalar.isFinite s.2 = true

theorem Related.tick (simulates : Solver.Simulates R) {l : Loop K ρ} {m : Loop K σ} (related : Related R l m)
    (pointer : Pointer K) : (l.tick pointer).1 = (m.tick pointer).1 ∧
      Related R (l.tick pointer).2 (m.tick pointer).2 := by
  obtain ⟨scheduler, quantities, solver, finite⟩ := related
  -- However a tick ends it leaves the queue empty, and what it asks for was either produced or waiting there.
  have emptied : ∀ s ∈ ([] : List (QuantityId × K)), Scalar.isFinite s.2 = true := fun _ member => (nomatch member)
  unfold Loop.tick
  rw [scheduler, quantities]
  split
  · exact ⟨rfl, rfl, rfl, solver, emptied⟩
  · rename_i values producers produced
    have asked : ∀ s ∈ values ++ m.scheduler.pending, Scalar.isFinite s.2 = true := by
      intro s member
      rcases List.mem_append.mp member with made | waiting
      · exact produceAll_finite produced s made
      · exact finite s waiting
    obtain ⟨answer, left, right, first, second, between⟩ := (suggestAll_agree simulates solver asked).split
    dsimp only
    rw [first, second]
    cases answer with
    | error e => exact ⟨rfl, rfl, rfl, between, emptied⟩
    | ok =>
      dsimp only
      split
      · exact ⟨rfl, rfl, rfl, between, emptied⟩
      · obtain ⟨answer, left, right, first, second, after⟩ := (simulates.resolve between).split
        rw [first, second]
        cases answer with
        | error e => exact ⟨rfl, rfl, rfl, after, emptied⟩
        | ok =>
          have values := simulates.value? after
          dsimp only [collect]
          rw [values]
          exact ⟨rfl, rfl, rfl, after, emptied⟩

end Loop

omit [Scalar K] in
/-- A value enters a queue at its place or behind all others. -/
theorem Scheduler.mem_enqueue {id : QuantityId} {value : K} {queue : List (QuantityId × K)} {s : QuantityId × K}
    (member : s ∈ enqueue id value queue) : s = (id, value) ∨ s ∈ queue := by
  induction queue with
  | nil => exact .inl (List.mem_singleton.mp member)
  | cons entry rest ih =>
    rw [enqueue] at member
    split at member
    · exact (List.mem_cons.mp member).imp_right (List.mem_cons_of_mem _)
    · rcases List.mem_cons.mp member with rfl | later
      · exact .inr List.mem_cons_self
      · exact (ih later).imp_right (List.mem_cons_of_mem _)

namespace Layout

/-- Layouts that are equal but for their solvers, and related in these. -/
structure Related (R : ρ → σ → Prop) (s : Layout K ρ) (t : Layout K σ) : Prop where
  loop : Loop.Related R s.toLoop t.toLoop
  formulas : s.formulas = t.formulas
  prebuilt : s.prebuilt = t.prebuilt
  rules : s.rules = t.rules
  plan : s.plan = t.plan
  settings : s.settings = t.settings

theorem Related.tick (simulates : Solver.Simulates R) {s : Layout K ρ} {t : Layout K σ} (related : Related R s t)
    (pointer : Pointer K) : Related R (s.tick pointer).2 (t.tick pointer).2 := by
  obtain ⟨loop, formulas, prebuilt, rules, plan, settings⟩ := related
  exact ⟨(loop.tick simulates pointer).2, formulas, prebuilt, rules, plan, settings⟩

omit [Solver ρ K] [Solver σ K] in
theorem Related.suggest {s : Layout K ρ} {t : Layout K σ} (related : Related R s t) (name : String) (value : K) :
    Related R (s.suggest name value).2 (t.suggest name value).2 := by
  obtain ⟨⟨scheduler, quantities, solver, finite⟩, formulas, prebuilt, rules, plan, settings⟩ := related
  unfold Layout.suggest
  rw [quantities]
  split
  · exact ⟨⟨scheduler, quantities, solver, finite⟩, formulas, prebuilt, rules, plan, settings⟩
  · rename_i id _
    split
    · rename_i allowed
      refine ⟨⟨congrArg (Scheduler.queue · id value) scheduler, rfl, solver, ?_⟩, formulas, prebuilt, rules, plan,
        settings⟩
      intro s member
      rcases Scheduler.mem_enqueue member with rfl | waiting
      · exact allowed
      · exact finite s waiting
    · exact ⟨⟨scheduler, quantities, solver, finite⟩, formulas, prebuilt, rules, plan, settings⟩

theorem Related.follow (simulates : Solver.Simulates R) {s : Layout K ρ} {t : Layout K σ} (related : Related R s t)
    (commands : List (Command K)) : Related R (s.follow commands) (t.follow commands) := by
  induction commands generalizing s t with
  | nil => exact related
  | cons command rest ih =>
    apply ih
    cases command with
    | tick pointer => exact related.tick simulates pointer
    | tickInto pointer => exact related.tick simulates pointer
    | suggest name value => exact related.suggest name value

theorem build_related (zero : Scalar.FiniteZero K) (simulates : Solver.Simulates R) (related : R s t)
    {spec : Specification K} {settings : Settings K} {built : Layout K σ} (accepted : build spec settings t = .ok built) :
    ∃ other, build spec settings s = .ok other ∧ Related R other built := by
  obtain ⟨valid, c, right, compiles, rfl⟩ := build_ok_iff.mp accepted
  obtain ⟨answer, left, _, first, second, after⟩ :=
    (Compilation.compile_agree zero simulates related spec ⟨settings.editStrength, settings.registerRules⟩).split
  cases second.symm.trans compiles
  refine ⟨_, build_ok_iff.mpr ⟨valid, c, left, first, rfl⟩, ?_⟩
  exact ⟨⟨rfl, rfl, after, fun _ member => (nomatch member)⟩, rfl, rfl, rfl, rfl, rfl⟩

end Layout

/-- A solver with a list of all that it was ever given. -/
structure Overheard (σ K : Type) where
  solver : σ
  inputs : List (Solver.Input K) := []

namespace Overheard

def hear {ε α : Type} (h : Overheard σ K) (input : Solver.Input K) (reply : Reply ε α σ) :
    Reply ε α (Overheard σ K) :=
  (reply.1, ⟨reply.2, h.inputs ++ [input]⟩)

instance : Solver (Overheard σ K) K where
  register id initial strength h := h.hear (.register id initial strength) (Solver.register id initial strength h.solver)
  isAdjustable h id := Solver.isAdjustable h.solver id
  suggest id value h := h.hear (.suggest id value) (Solver.suggest id value h.solver)
  resolve h := h.hear .resolve (Solver.resolve h.solver)
  addRules rules h := h.hear (.addRules rules) (Solver.addRules rules h.solver)
  value? h id := Solver.value? h.solver id

/-- The overheard solver is in the same state, and was given finite numbers only. -/
def Follows (h : Overheard σ K) (solver : σ) : Prop := h.solver = solver ∧ ∀ input ∈ h.inputs, input.IsFinite

omit [Solver σ K] in
theorem hear_agree {ε α : Type} {h : Overheard σ K} {solver : σ} (follows : h.Follows solver)
    (input : Solver.Input K) (finite : input.IsFinite) (act : σ → Reply ε α σ) :
    Solver.Agree Follows (h.hear input (act h.solver)) (act solver) := by
  obtain ⟨rfl, heard⟩ := follows
  refine ⟨rfl, rfl, ?_⟩
  intro other member
  rcases List.mem_append.mp member with old | new
  · exact heard other old
  · exact List.mem_singleton.mp new ▸ finite

theorem simulates : Solver.Simulates (Follows (σ := σ) (K := K)) where
  register finite follows := hear_agree follows (.register _ _ _) finite _
  suggest finite follows := hear_agree follows (.suggest _ _) finite _
  resolve follows := hear_agree follows .resolve trivial _
  addRules weighed follows := hear_agree follows (.addRules _) weighed _
  value? follows := by
    obtain ⟨rfl, _⟩ := follows
    rfl

end Overheard

namespace Layout

/-- The layout on the solver itself. -/
def unheard (s : Layout K (Overheard σ K)) : Layout K σ where
  scheduler := s.scheduler
  quantities := s.quantities
  solver := s.solver.solver
  formulas := s.formulas
  prebuilt := s.prebuilt
  rules := s.rules
  plan := s.plan
  settings := s.settings

omit [Solver σ K] in
theorem Related.unheard_eq {s : Layout K (Overheard σ K)} {t : Layout K σ} (related : Related Overheard.Follows s t) :
    s.unheard = t := by
  obtain ⟨⟨scheduler, quantities, ⟨solver, _⟩, _⟩, formulas, prebuilt, rules, plan, settings⟩ := related
  simp only [unheard, scheduler, quantities, solver, formulas, prebuilt, rules, plan, settings]

/-- A build passes nothing but finite numbers to its solver, whether it fails or not, and of the rules that it makes
none has a weight that is not finite or below zero. Whatever the layout is asked afterwards, that goes on. -/
theorem only_finite_inputs (spec : Specification Float) (settings : Settings Float) {σ : Type} [Solver σ Float]
    (solver : σ) :
    Solver.Agree Overheard.Follows
      (Compilation.compile spec ⟨settings.editStrength, settings.registerRules⟩ (⟨solver, []⟩ : Overheard σ Float))
      (Compilation.compile spec ⟨settings.editStrength, settings.registerRules⟩ solver) ∧
    ∀ s, build spec settings solver = .ok s → (∀ rule ∈ s.rules, rule.Weighed) ∧
      ∃ heard, build spec settings (⟨solver, []⟩ : Overheard σ Float) = .ok heard ∧ ∀ commands,
        (heard.follow commands).unheard = s.follow commands ∧
          ∀ input ∈ (heard.follow commands).solver.inputs, input.IsFinite := by
  have start : (⟨solver, []⟩ : Overheard σ Float).Follows solver := ⟨rfl, fun _ member => (nomatch member)⟩
  refine ⟨Compilation.compile_agree Scalar.finiteZero_float Overheard.simulates start spec _, ?_⟩
  intro s accepted
  constructor
  · obtain ⟨_, c, after, compiles, rfl⟩ := build_ok_iff.mp accepted
    exact Rule.weighed_of_compileAll Scalar.finiteZero_float (Compilation.compile_ok compiles).rules
  · obtain ⟨heard, overheard, related⟩ := build_related Scalar.finiteZero_float Overheard.simulates start accepted
    refine ⟨heard, overheard, fun commands => ?_⟩
    have followed := related.follow Overheard.simulates commands
    exact ⟨followed.unheard_eq, followed.loop.solver.2⟩

/-- A quantity that follows the pointer, wherever that is, beside a rule that weighs two. -/
def polled : Specification Float :=
  let spec : Specification Float := {}
  spec
    |>.declare "cursor" (.producer .pointerX)
    |>.declare "width" (.number 20)
    |>.require (.array [.reference "width", .token (.strength .weak), .number 2])

theorem polled_builds : ∃ s, build polled .standard ({} : Recorder Float) = .ok s := by
  have ok : (build polled .standard ({} : Recorder Float)).isOk = true := by decide +kernel
  generalize build polled .standard ({} : Recorder Float) = answer at ok
  cases answer with
  | error e => cases ok
  | ok s => exact ⟨s, rfl⟩

theorem polled_only_finite_inputs : ∃ s, build polled .standard ({} : Recorder Float) = .ok s ∧
    (∀ rule ∈ s.rules, rule.Weighed) ∧
    ∃ heard, build polled .standard (⟨{}, []⟩ : Overheard (Recorder Float) Float) = .ok heard ∧
      let commands := [.tick ⟨3, 0⟩, .tickInto ⟨1 / 0, 0⟩, .suggest "width" (0 / 0), .suggest "width" 7, .tick ⟨4, 0⟩]
      (heard.follow commands).unheard = s.follow commands ∧
        ∀ input ∈ (heard.follow commands).solver.inputs, input.IsFinite := by
  obtain ⟨s, accepted⟩ := polled_builds
  obtain ⟨weighed, heard, overheard, follows⟩ := (only_finite_inputs polled .standard ({} : Recorder Float)).2 s accepted
  exact ⟨s, accepted, weighed, heard, overheard, follows _⟩

end Layout
end ReactiveLayout
