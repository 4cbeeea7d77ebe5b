import Mathlib
import ReactiveLayout.Proofs.Commands
import ReactiveLayout.Proofs.Meaning
import ReactiveLayout.Proofs.Minimizer
import ReactiveLayout.Proofs.RuleGrammar

/-! Required rules hold on what a layout shows. The rules of a build go to the solver in one batch, so every stay among
them means the initial values. From then on the table holds what the solver last settled at: a tick that fails or has
nothing to settle leaves it, and every other one takes over values at which the engine keeps what is required. -/
namespace ReactiveLayout

/-- The values of a table by number, zero for what it does not have. -/
def QuantityTable.valueAt {K : Type} [Scalar K] (t : QuantityTable K) (id : QuantityId) : K := (t.value? id).getD 0

variable {τ : Type} [Engine τ Rat]

namespace Loop

theorem suggestAll_keeps (suggestions : List (QuantityId × Rat)) {s : EngineSolver τ Rat} (sound : s.Sound) :
    (suggestAll suggestions s).2.Sound ∧ (suggestAll suggestions s).2.adjustables = s.adjustables ∧
      (suggestAll suggestions s).2.constraints = s.constraints := by
  induction suggestions generalizing s with
  | nil => exact ⟨sound, rfl, rfl⟩
  | cons suggestion rest ih =>
    obtain ⟨id, value⟩ := suggestion
    obtain ⟨kept, adjustables, constraints⟩ := EngineSolver.suggest_keeps sound id value
    have made : Solver.suggest id value s = s.suggest id value := rfl
    rw [suggestAll, made]
    revert kept adjustables constraints
    generalize s.suggest id value = reply
    obtain ⟨answer, after⟩ := reply
    intro kept adjustables constraints
    cases answer with
    | error e => exact ⟨kept, adjustables, constraints⟩
    | ok =>
      obtain ⟨last, same, taken⟩ := ih kept
      exact ⟨last, same.trans adjustables, taken.trans constraints⟩

/-- The table takes over exactly the values of a solver that knows the same quantities. -/
theorem valueAt_collect {l : Loop Rat (EngineSolver τ Rat)}
    (registered : ∀ id, l.solver.knows id = true ↔ id < l.quantities.size) :
    l.collect.2.quantities.valueAt = l.solver.valueAt := by
  funext id
  have entry : l.collect.2.quantities.entries[id]? = l.quantities.entries[id]?.map fun q =>
      { q with value := (l.solver.adjustables.lookup id).getD q.value } := by
    have settled := getElem?_settle l.scheduler.tolerance (Solver.value? l.solver) 0 l.quantities.entries
      l.scheduler.reported id
    rwa [Nat.zero_add] at settled
  rw [QuantityTable.valueAt, QuantityTable.value?, QuantityTable.get?, entry, EngineSolver.valueAt]
  by_cases known : id < l.quantities.size
  · obtain ⟨value, found⟩ := Option.isSome_iff_exists.mp ((registered id).mpr known)
    rw [List.getElem?_eq_getElem known, found]
    rfl
  · have unknown : l.solver.adjustables.lookup id = none := by
      rw [← Option.not_isSome_iff_eq_none]
      exact fun some => known ((registered id).mp some)
    rw [List.getElem?_eq_none (Nat.le_of_not_lt known), unknown]
    rfl

/-- The solver has taken the constraints and knows the quantities of the table, and once a tick was completed, the table
satisfies what is required. -/
structure Upkept (constraints : List (Constraint Rat)) (l : Loop Rat (EngineSolver τ Rat)) : Prop where
  sound : l.solver.Sound
  taken : l.solver.constraints = constraints
  registered : ∀ id, l.solver.knows id = true ↔ id < l.quantities.size
  settled : l.scheduler.ticks ≠ 0 → ∀ c ∈ constraints, c.isHard = true → c.Holds l.quantities.valueAt

variable {constraints : List (Constraint Rat)} {l : Loop Rat (EngineSolver τ Rat)}

theorem Upkept.tick (keeps : Engine.KeepsRequired τ) (kept : Upkept constraints l) (pointer : Pointer Rat) :
    Upkept constraints (l.tick pointer).2 := by
  have ended := tick_cases pointer l
  generalize l.tick pointer = reply at ended
  -- Suggestions change the engine only.
  have suggested {suggestions : List (QuantityId × Rat)} {answer : Except (SolverError Rat) Unit}
      {solver : EngineSolver τ Rat} (made : suggestAll suggestions l.solver = (answer, solver)) :
      solver.Sound ∧ solver.constraints = constraints ∧ ∀ id, solver.knows id = true ↔ id < l.quantities.size := by
    obtain ⟨sound, adjustables, taken⟩ := suggestAll_keeps suggestions kept.sound
    rw [made] at sound adjustables taken
    refine ⟨sound, taken.trans kept.taken, fun id => ?_⟩
    rw [EngineSolver.knows, adjustables]
    exact kept.registered id
  cases ended with
  | stopped => exact ⟨kept.sound, kept.taken, kept.registered, kept.settled⟩
  | refused _ made =>
    obtain ⟨sound, taken, registered⟩ := suggested made
    exact ⟨sound, taken, registered, kept.settled⟩
  | idle _ _ later => exact ⟨kept.sound, kept.taken, kept.registered, fun _ => kept.settled later⟩
  | unsettled _ _ _ resolved => cases resolved
  | @settled values producers solver after _ made _ resolved =>
    obtain ⟨sound, taken, registered⟩ := suggested made
    obtain rfl : solver.resolve.2 = after := congrArg Prod.snd resolved
    have known (id : QuantityId) : solver.resolve.2.knows id = true ↔ id < l.quantities.size := by
      rw [EngineSolver.knows, EngineSolver.lookup_resolve, Option.isSome_map]
      exact registered id
    have size : (l.called producers (l.scheduler.ticks + 1) solver.resolve.2).collect.2.quantities.size =
        l.quantities.size := collect_size _
    refine ⟨EngineSolver.resolve_sound sound, taken, fun id => (known id).trans (by rw [size]), fun _ c member hard => ?_⟩
    have values := valueAt_collect (l := l.called producers (l.scheduler.ticks + 1) solver.resolve.2) known
    rw [values]
    exact EngineSolver.resolve_holds keeps sound (taken ▸ member) hard

theorem ticks_of_ok {pointer : Pointer Rat} {changes : ChangeSet Rat} (ticked : (l.tick pointer).1 = .ok changes) :
    (l.tick pointer).2.scheduler.ticks = l.scheduler.ticks + 1 := by
  have ended := tick_cases pointer l
  generalize l.tick pointer = reply at ended ticked
  cases ended with
  | stopped | refused | unsettled => cases ticked
  | idle | settled => rfl

theorem ticks_le (pointer : Pointer Rat) : l.scheduler.ticks ≤ (l.tick pointer).2.scheduler.ticks := by
  have ended := tick_cases pointer l
  generalize l.tick pointer = reply at ended
  cases ended with
  | stopped | refused => exact Nat.le_refl _
  | idle | unsettled | settled => exact Nat.le_succ _

end Loop

section
variable {scope : Scope Rat}

def Term.IsRequired (term : Term Rat) : Prop :=
  term = .token (.strength .required) ∨ term = .built (.strength .required)

namespace Rule

theorem StrengthAt.eq_required {term : Term Rat} {strength : Strength} (required : term.IsRequired)
    (written : StrengthAt (some term) strength) : strength = .required := by
  rcases required with rfl | rfl
  · cases written
    rfl
  · cases written
    rfl

theorem relation_of_compile {left right strength : Term Rat} {comparator : Comparator} {rest : List (Term Rat)}
    {rule : Rule Rat} (required : strength.IsRequired)
    (compiled : compile scope (left :: .token (.comparator comparator) :: right :: strength :: rest) = .ok rule) :
    ∃ l r, Formula.Operand scope left l ∧ Formula.Operand scope right r ∧ rule.demand = .relation l comparator r ∧
      rule.strength = .required := by
  cases writes_of_compile compiled with
  | relation _ first _ leftOperand second third rightOperand fourth _ =>
    cases first
    cases second
    cases third
    exact ⟨_, _, leftOperand, rightOperand, rfl, fourth.eq_required required⟩
  | stay _ _ _ _ second _ => cases second

theorem stay_of_compile {target strength : Term Rat} {rest : List (Term Rat)} {rule : Rule Rat}
    (required : strength.IsRequired) (compiled : compile scope (target :: strength :: rest) = .ok rule) :
    ∃ e, Formula.Operand scope target e ∧ rule.demand = .stay e ∧ rule.strength = .required := by
  cases writes_of_compile compiled with
  | relation _ _ _ _ second _ _ _ _ =>
    cases second
    rcases required with impossible | impossible <;> cases impossible
  | stay _ first _ operand second _ =>
    cases first
    exact ⟨_, operand, rfl, second.eq_required required⟩

end Rule
end

def Specification.initialValues (spec : Specification Rat) (id : QuantityId) : Rat :=
  (spec.quantities.entries[id]?.map fun entry => entry.2.initial).getD 0

namespace Model

/-- The solver knows the quantities of the model at their initial values, and no rule. -/
structure Aligned (m : Model Rat) (s : EngineSolver τ Rat) : Prop where
  sound : s.Sound
  free : s.constraints = []
  values : ∀ id, s.adjustables.lookup id = m.quantities.value? id

theorem AddsName.aligned {spec : Specification Rat} {strength : Strength} {name : String} {m final : Model Rat}
    {s after : EngineSolver τ Rat} (added : AddsName spec strength name m s final after) (aligned : Aligned m s) :
    Aligned final after := by
  cases added with
  | @quantity term initial producer _ declared read fresh registered =>
    obtain ⟨sound, adjustables, constraints⟩ := EngineSolver.register_ok aligned.sound registered
    refine ⟨sound, constraints.trans aligned.free, fun id => ?_⟩
    rw [adjustables, List.lookup_append, aligned.values, QuantityTable.value?, QuantityTable.value?,
      QuantityTable.get?_concat]
    by_cases here : id = m.quantities.size
    · subst here
      have outside : m.quantities.get? m.quantities.size = none := by
        simp [QuantityTable.get?, QuantityTable.size]
      simp [outside]
    · simp [here, List.lookup_cons, beq_eq_false_iff_ne.mpr here]
  | formula => exact ⟨aligned.sound, aligned.free, aligned.values⟩

theorem Builds.aligned {spec : Specification Rat} {strength : Strength} {names : List String} {m final : Model Rat}
    {s after : EngineSolver τ Rat} (run : Builds spec strength names m s final after) (aligned : Aligned m s) :
    Aligned final after := by
  induction run with
  | nil => exact aligned
  | cons first _ ih => exact ih (first.aligned aligned)

end Model

namespace Compilation

theorem submit_ok {options : BuildOptions} (wanted : options.registerRules = true) {rules : List (Rule Rat)}
    {s after : EngineSolver τ Rat} (sound : s.Sound) (submitted : submit options rules s = (.ok (), after)) :
    after.Sound ∧ after.adjustables = s.adjustables ∧
      after.constraints = s.constraints ++ rules.map (Constraint.ofRule s.valueAt) := by
  unfold submit at submitted
  split at submitted
  · exact EngineSolver.addRules_ok sound submitted
  · rename_i kept
    obtain rfl : rules = [] := by simpa [wanted] using kept
    cases submitted
    exact ⟨sound, rfl, (List.append_nil _).symm⟩

end Compilation

namespace Layout

variable {K σ : Type} [Scalar K] [Solver σ K]

/-- The values of a snapshot by number, zero for what is not in it. -/
def shownValues (s : Layout K σ) (id : QuantityId) : K := ((s.quantities.name? id).bind s.snapshot.get?).getD 0

omit [Solver σ K] in
theorem shownValues_eq {s : Layout K σ} (unique : s.quantities.names.Nodup) : s.shownValues = s.quantities.valueAt := by
  funext id
  rw [shownValues, QuantityTable.name?, QuantityTable.get?, QuantityTable.valueAt, QuantityTable.value?, QuantityTable.get?]
  cases found : s.quantities.entries[id]? with
  | none => rfl
  | some q =>
    rw [Option.map_some, Option.bind_some, snapshot, QuantityTable.snapshot_get? unique,
      QuantityTable.valueOf?_of_getElem? unique found]
    rfl

theorem build_ok {spec : Specification K} {settings : Settings K} {solver : σ} {s : Layout K σ}
    (built : build spec settings solver = .ok s) : ∃ c after,
      Compilation.compile spec ⟨settings.editStrength, settings.registerRules⟩ solver = (.ok c, after) ∧
        s.rules = c.rules ∧ s.quantities = c.model.quantities ∧ s.solver = after ∧ s.scheduler.ticks = 0 := by
  obtain ⟨_, c, after, accepted, rfl⟩ := build_ok_iff.mp built
  exact ⟨c, after, accepted, rfl, rfl, rfl, rfl⟩

/-- What a layout keeps from its build on: the rules, the names, and on the solver the constraints of the rules, with
every stay at the initial values. -/
structure Runs (spec : Specification Rat) (rules : List (Rule Rat)) (s : Layout Rat (EngineSolver τ Rat)) : Prop where
  same : s.rules = rules
  names : s.quantities.names = spec.quantities.names
  upkept : s.toLoop.Upkept (rules.map (Constraint.ofRule spec.initialValues))

theorem build_runs {spec : Specification Rat} {settings : Settings Rat} {s : Layout Rat (EngineSolver τ Rat)}
    (built : build spec settings {} = .ok s) (wanted : settings.registerRules = true) : Runs spec s.rules s := by
  obtain ⟨c, after, accepted, rules, quantities, solver, ticks⟩ := build_ok built
  have compiled := Compilation.compile_ok accepted
  obtain ⟨between, run, submitted⟩ := compiled.built
  have empty : Model.Aligned ({} : Model Rat) ({} : EngineSolver τ Rat) :=
    ⟨EngineSolver.sound_fresh, rfl, fun id => by simp [QuantityTable.value?, QuantityTable.get?, QuantityTable.empty]⟩
  have aligned := run.aligned empty
  obtain ⟨sound, adjustables, constraints⟩ := Compilation.submit_ok wanted aligned.sound submitted
  have initial : between.valueAt = spec.initialValues := by
    funext id
    rw [EngineSolver.valueAt, aligned.values, compiled.quantities, Specification.initialValues, QuantityTable.value?,
      QuantityTable.get?, List.getElem?_map, Option.map_map]
    rfl
  refine ⟨rfl, ?_, ?_, ?_, ?_, ?_⟩
  · rw [quantities, compiled.quantity_names]
  · rw [solver]
    exact sound
  · rw [solver, constraints, aligned.free, initial, rules, List.nil_append]
  · intro id
    rw [solver, EngineSolver.knows, adjustables, aligned.values, quantities]
    simp [QuantityTable.value?, QuantityTable.get?, QuantityTable.size]
  · intro later
    exact absurd ticks later

theorem Runs.follow (keeps : Engine.KeepsRequired τ) {spec : Specification Rat} {rules : List (Rule Rat)}
    {s : Layout Rat (EngineSolver τ Rat)} (runs : Runs spec rules s) (commands : List (Command Rat)) :
    Runs spec rules (s.follow commands) := by
  refine follow_invariant ?_ ?_ runs commands
  · intro s pointer runs
    exact ⟨runs.same, (Loop.tick_names pointer).trans runs.names, runs.upkept.tick keeps pointer⟩
  · intro s id value ⟨same, names, sound, taken, registered, settled⟩ _
    exact ⟨same, names, sound, taken, registered, settled⟩

theorem ticks_le_follow (s : Layout Rat (EngineSolver τ Rat)) (commands : List (Command Rat)) :
    s.scheduler.ticks ≤ (s.follow commands).scheduler.ticks := by
  refine follow_invariant (P := fun t => s.scheduler.ticks ≤ t.scheduler.ticks) ?_ ?_ (Nat.le_refl _) commands
  · intro t pointer grown
    exact Nat.le_trans grown (Loop.ticks_le pointer)
  · intro t _ _ grown _
    exact grown

/-- What a specification requires holds at the values that a layout shows: the two sides of a relation, as they are
written, stand in it, and what is to stay has the value that it has at the declared values. -/
structure Upheld (spec : Specification Rat) (s : Layout Rat σ) : Prop where
  relations : ∀ left comparator right strength rest,
    left :: .token (.comparator comparator) :: right :: strength :: rest ∈ spec.rules → strength.IsRequired →
      ∃ x y, Denotes spec s.shownValues [left] x ∧ Denotes spec s.shownValues [right] y ∧ comparator.Relates x y
  stays : ∀ target strength rest, target :: strength :: rest ∈ spec.rules → strength.IsRequired →
    ∃ x, Denotes spec spec.initialValues [target] x ∧ Denotes spec s.shownValues [target] x
  /-- The same of the rules that the specification was compiled to. -/
  rules : ∀ rule ∈ s.rules, rule.strength = .required → rule.Holds spec.initialValues s.shownValues

/-- The rules that hold as they were compiled hold as they are written. -/
theorem upheld_of_rules {ρ : Type} [Solver ρ Rat] {spec : Specification Rat} {options : BuildOptions}
    {solver after : ρ} {c : Compilation Rat} {s : Layout Rat σ}
    (compiled : Compilation.Compiled spec options solver c after) (same : s.rules = c.rules)
    (rules : ∀ rule ∈ s.rules, rule.strength = .required → rule.Holds spec.initialValues s.shownValues) :
    Upheld spec s := by
  have tuples := Rule.compileAll_ok compiled.rules
  have denotes {values : QuantityId → Rat} {term : Term Rat} {e : Affine Rat}
      (operand : Formula.Operand (c.model.scope spec.prebuilt) term e) : Denotes spec values [term] (e.evaluate values) :=
    Formula.language_denotes.1 term e operand
      (compiled.faithful fun _ _ _ _ declared stored => compiled.formula_denotes values declared stored)
  refine ⟨?_, ?_, rules⟩
  · intro left comparator right strength rest member required
    obtain ⟨rule, found, lowered⟩ := Rule.mem_of_compileAll tuples member
    obtain ⟨l, r, first, second, demand, firm⟩ := Rule.relation_of_compile required lowered
    have holds := rules rule (same ▸ found) firm
    rw [Rule.Holds, demand] at holds
    exact ⟨_, _, denotes first, denotes second, holds⟩
  · intro target strength rest member required
    obtain ⟨rule, found, lowered⟩ := Rule.mem_of_compileAll tuples member
    obtain ⟨e, operand, demand, firm⟩ := Rule.stay_of_compile required lowered
    have holds := rules rule (same ▸ found) firm
    rw [Rule.Holds, demand] at holds
    exact ⟨_, denotes operand, holds ▸ denotes operand⟩

/-- Required rules hold on what a layout shows, at every moment from its first successful tick on, if its engine keeps
what is required of it. -/
theorem required_rules_hold (keeps : Engine.KeepsRequired τ) {spec : Specification Rat} {settings : Settings Rat}
    {s : Layout Rat (EngineSolver τ Rat)} (built : build spec settings {} = .ok s)
    (wanted : settings.registerRules = true) (before : List (Command Rat)) (pointer : Pointer Rat)
    {changes : ChangeSet Rat} (ticked : ((s.follow before).tick pointer).1 = .ok changes)
    (behind : List (Command Rat)) : Upheld spec (((s.follow before).tick pointer).2.follow behind) := by
  obtain ⟨c, after, accepted, rules, _⟩ := build_ok built
  have first := ((build_runs built wanted).follow keeps before).follow keeps [.tick pointer]
  have runs := first.follow keeps behind
  have completed : (((s.follow before).tick pointer).2.follow behind).scheduler.ticks ≠ 0 := by
    have grown := ticks_le_follow ((s.follow before).tick pointer).2 behind
    have counted : ((s.follow before).tick pointer).2.scheduler.ticks = (s.follow before).scheduler.ticks + 1 :=
      Loop.ticks_of_ok ticked
    omega
  refine upheld_of_rules (Compilation.compile_ok accepted) (runs.same.trans rules) fun rule member required => ?_
  have unique : (((s.follow before).tick pointer).2.follow behind).quantities.names.Nodup :=
    runs.names ▸ spec.quantities.names_nodup
  have lowered : Constraint.ofRule spec.initialValues rule ∈ s.rules.map (Constraint.ofRule spec.initialValues) :=
    List.mem_map_of_mem (runs.same ▸ member)
  rw [shownValues_eq unique, ← Rule.holds_ofRule_iff]
  exact runs.upkept.settled completed _ lowered (Rule.isHard_of_required required _)

/-- A panel whose left edge follows the pointer, up to a line that it may not cross, and whose width stays. -/
def panel : Specification Rat :=
  let spec : Specification Rat := {}
  spec
    |>.declare "left" (.producer .pointerX)
    |>.declare "right" (.number 20)
    |>.declare "width" (.number 20)
    |>.define "edge" (.array [.reference "left", .token (.operator .add), .reference "width"])
    |>.require (.array [.reference "right", .token (.comparator .equal), .reference "edge", .token (.strength .required)])
    |>.require (.array [.reference "left", .token (.comparator .lessOrEqual), .number 50, .token (.strength .required)])
    |>.require (.array [.reference "width", .token (.strength .required)])

theorem panel_ticks : ∃ s changes, build panel .standard ({} : Minimizer Rat) = .ok s ∧
    ((s.follow [.suggest "right" 30]).tick ⟨10, 0⟩).1 = .ok changes := by
  have ok : (match build panel .standard ({} : Minimizer Rat) with
      | .ok s => ((s.follow [.suggest "right" 30]).tick ⟨10, 0⟩).1.isOk
      | .error _ => false) = true := by decide +kernel
  generalize build panel .standard ({} : Minimizer Rat) = answer at ok
  cases answer with
  | error e => cases ok
  | ok s =>
    dsimp only at ok
    generalize ticked : ((s.follow [.suggest "right" 30]).tick ⟨10, 0⟩).1 = answer at ok
    cases answer with
    | error e => cases ok
    | ok changes => exact ⟨s, changes, rfl, ticked⟩

theorem panel_required_rules_hold : ∃ s changes, build panel .standard ({} : Minimizer Rat) = .ok s ∧
    ((s.follow [.suggest "right" 30]).tick ⟨10, 0⟩).1 = .ok changes ∧
    Upheld panel (((s.follow [.suggest "right" 30]).tick ⟨10, 0⟩).2.follow
      [.tick ⟨60, 0⟩, .suggest "right" 5, .tickInto ⟨70, 0⟩, .suggest "width" 1]) := by
  obtain ⟨s, changes, built, ticked⟩ := panel_ticks
  exact ⟨s, changes, built, ticked, required_rules_hold Optimizer.keepsRequired built rfl _ _ ticked _⟩

end Layout
end ReactiveLayout
