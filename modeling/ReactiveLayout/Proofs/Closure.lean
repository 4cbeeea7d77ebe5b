import ReactiveLayout.Proofs.Commands
import ReactiveLayout.Proofs.NormalForm
import ReactiveLayout.Proofs.Retention
import ReactiveLayout.Proofs.RuleGrammar

/-! A layout is closed: its formulas and rules mention none but its own quantities. While a table of quantities grows
its numbers stay below its final size, and every operation on expressions keeps to the numbers of its operands, so
the bound is carried through the whole build. On the side of the solver this leaves nothing to misuse: quantities are
registered under one number after the other, and rules come when all of them are registered. -/
namespace ReactiveLayout
variable {K : Type} [Scalar K] {n : Nat}

/-- All quantities of an expression have numbers below `n`. -/
def Affine.Below (n : Nat) (e : Affine K) : Prop := ∀ id ∈ e.quantities, id < n

def Rule.Below (n : Nat) (rule : Rule K) : Prop := ∀ id ∈ rule.quantities, id < n

def NameTable.Below (n : Nat) (table : NameTable (Affine K)) : Prop := ∀ name e, table.get? name = some e → e.Below n

omit [Scalar K] in
theorem Affine.below_constant (value : K) : (constant value).Below n := fun _ member => (nomatch member)

theorem Affine.Combines.below {a b e : Affine K} (combines : Combines a b e) (left : a.Below n) (right : b.Below n) :
    e.Below n :=
  fun id member => (combines.quantities member).elim (left id) (right id)

/-- Whatever a scope knows is below `n`. -/
structure Scope.Below (n : Nat) (s : Scope K) : Prop where
  size : s.quantities.size ≤ n
  formulas : s.formulas.Below n
  prebuilt : s.prebuilt.Below n

variable {s : Scope K}

theorem Scope.Below.binding (below : s.Below n) {name : String} {e : Affine K} (bound : s.binding? name = some e) :
    e.Below n := by
  unfold binding? at bound
  split at bound
  · rename_i id found
    cases bound
    intro other member
    obtain rfl := Affine.quantities_quantity member
    exact Nat.lt_of_lt_of_le (List.findIdx?_eq_some_iff_findIdx_eq.mp found).1 below.size
  · split at bound
    · rename_i stored
      cases bound
      exact below.formulas name _ stored
    · exact below.prebuilt name e bound

omit [Scalar K] in
theorem Scope.Below.accept (below : s.Below n) {e accepted : Affine K} (resolved : s.accept e = .ok accepted) :
    accepted.Below n := by
  obtain ⟨rfl, known⟩ := accept_ok_iff.mp resolved
  exact fun id member => Nat.lt_of_lt_of_le (known id member) below.size

theorem Scope.Below.primitive (below : s.Below n) {primitive : Primitive K} {e : Affine K}
    (resolved : s.primitive primitive = .ok e) : e.Below n := by
  cases primitive with
  | quantity id => exact below.accept resolved
  | expression e => exact below.accept resolved
  | strength strength => cases resolved

namespace Formula

omit [Scalar K] in
theorem of_mem_stands {R : Term K → Affine K → Prop} {elements : List (Term K)} {pieces : List (Piece K)}
    (stand : List.Forall₂ (Stands R) elements pieces) {x : Affine K} (member : .operand x ∈ pieces) :
    ∃ term, R term x := by
  induction stand with
  | nil => cases member
  | cons first _ ih =>
    rcases List.mem_cons.mp member with rfl | later
    · cases first with
      | operand stands => exact ⟨_, stands⟩
    · exact ih later

theorem below_of_steps {start e : Affine K} {steps : List (Operator × Affine K)} (left : start.Below n)
    (right : ∀ step ∈ steps, step.2.Below n)
    (folded : steps.foldlM (fun acc step => acc.apply step.1 step.2) start = .ok e) : e.Below n := by
  induction steps generalizing start with
  | nil =>
    cases folded
    exact left
  | cons step rest ih =>
    obtain ⟨next, applied, later⟩ := foldlM_cons_ok folded
    have below : next.Below n := (Affine.Combines.apply applied).below left (right step List.mem_cons_self)
    exact ih below (fun other member => right other (List.mem_cons_of_mem _ member)) later

/-- The operators of a sentence keep to the quantities of its operands. -/
theorem below_of_woven {elements : List (Term K)} {start e : Affine K} {steps : List (Operator × Affine K)}
    (stand : List.Forall₂ (Stands fun _ x => x.Below n) elements (woven start steps))
    (folded : steps.foldlM (fun acc step => acc.apply step.1 step.2) start = .ok e) : e.Below n := by
  have operand {x : Affine K} (member : .operand x ∈ woven start steps) : x.Below n := by
    obtain ⟨_, below⟩ := of_mem_stands stand member
    exact below
  refine below_of_steps (operand List.mem_cons_self) (fun step member => operand ?_) folded
  exact List.mem_cons_of_mem _ (List.mem_flatMap.mpr ⟨step, member, by simp⟩)

theorem below_of_operand (below : s.Below n) {term : Term K} {x : Affine K} (operand : Operand s term x) :
    x.Below n := by
  refine (language_induction (P := fun _ x => x.Below n) (Q := fun _ e => e.Below n) ?_ ?_ ?_ ?_ ?_).1 term x operand
  · exact fun value _ => Affine.below_constant value
  · exact fun _ _ bound => below.binding bound
  · exact fun _ _ inner => inner
  · exact fun _ _ resolved => below.primitive resolved
  · exact fun _ _ _ _ stand folded => below_of_woven stand folded

theorem below_of_compile (below : s.Below n) {owner : String} {elements : List (Term K)} {e : Affine K}
    (compiled : compile owner elements s = .ok e) : e.Below n :=
  below_of_operand below (operand_array_iff.mpr compiled)

end Formula

theorem Rule.below_of_compile (below : s.Below n) {tuple : List (Term K)} {rule : Rule K}
    (compiled : compile s tuple = .ok rule) : rule.Below n := by
  cases writes_of_compile compiled with
  | relation _ _ _ left _ _ right _ _ =>
    intro id member
    rcases List.mem_append.mp member with first | second
    · exact Formula.below_of_operand below left id first
    · exact Formula.below_of_operand below right id second
  | stay _ _ _ operand _ _ => exact Formula.below_of_operand below operand

namespace Model

theorem expressionOf_below (below : s.Below n) {name : String} {term : Term K} {e : Affine K}
    (compiled : expressionOf name term s = .ok e) : e.Below n := by
  cases term with
  | number value =>
    by_cases finite : Scalar.isFinite value = true
    · simp only [expressionOf, Term.classify, Term.kind?, finite, if_true] at compiled
      cases compiled
      exact Affine.below_constant value
    · simp only [expressionOf, Term.classify, Term.kind?, finite, Bool.false_eq_true, if_false] at compiled
      cases compiled
  | descriptor value =>
    by_cases finite : Scalar.isFinite value = true <;>
      simp [expressionOf, Term.classify, Term.kind?, finite] at compiled
  | array elements => exact Formula.below_of_compile below compiled
  | built primitive =>
    cases primitive with
    | quantity id => exact below.accept compiled
    | expression built => exact below.accept compiled
    | strength => cases compiled
  | reference | token | producer => cases compiled

variable {σ : Type} [Solver σ K] {spec : Specification K} {strength : Strength} {m final : Model K} {solver after : σ}

theorem AddsName.formulas_below (prebuilt : spec.prebuilt.Below n) {name : String} (size : m.quantities.size ≤ n)
    (below : m.formulas.Below n) (added : AddsName spec strength name m solver final after) :
    final.formulas.Below n := by
  cases added with
  | quantity => exact below
  | formula _ _ compiled =>
    intro other e stored
    by_cases here : other = name
    · subst here
      rw [NameTable.get?_insert_self] at stored
      cases stored
      exact expressionOf_below ⟨size, below, prebuilt⟩ compiled
    · rw [NameTable.get?_insert_ne _ _ here] at stored
      exact below other e stored

/-- The bound is that of the finished table. All tables on the way are smaller. -/
theorem Builds.formulas_below (prebuilt : spec.prebuilt.Below n) {names : List String}
    (run : Builds spec strength names m solver final after) (size : final.quantities.size ≤ n)
    (below : m.formulas.Below n) : final.formulas.Below n := by
  induction run with
  | nil => exact below
  | cons first later ih =>
    have smaller := Nat.le_trans first.size_le (Nat.le_trans later.size_le size)
    exact ih size (first.formulas_below prebuilt smaller below)

end Model

namespace Compilation
variable {σ : Type} [Solver σ K] {spec : Specification K} {options : BuildOptions} {solver after : σ}
  {c : Compilation K}

theorem Compiled.size (compiled : Compiled spec options solver c after) :
    c.model.quantities.size = spec.quantities.size := by
  rw [compiled.quantities, QuantityTable.size, List.length_map, NameTable.size]

theorem Compiled.below (compiled : Compiled spec options solver c after)
    (prebuilt : spec.prebuilt.Below spec.quantities.size) :
    c.model.formulas.Below c.model.quantities.size ∧ ∀ rule ∈ c.rules, rule.Below c.model.quantities.size := by
  rw [← compiled.size] at prebuilt
  obtain ⟨_, run, _⟩ := compiled.built
  have formulas : c.model.formulas.Below c.model.quantities.size :=
    run.formulas_below prebuilt (Nat.le_refl _) fun _ _ stored => (nomatch stored)
  have finished : (c.model.scope spec.prebuilt).Below c.model.quantities.size := ⟨Nat.le_refl _, formulas, prebuilt⟩
  exact ⟨formulas, Rule.forall_of_compileAll (fun _ _ first => Rule.below_of_compile finished first) compiled.rules⟩

end Compilation

/-- A solver was asked for something that its state or its rules of use exclude. -/
def SolverError.IsMisuse : SolverError K → Prop
  | .unknownQuantity _ | .duplicateAdjustable _ | .requiredAdjustable _ => True
  | .unsatisfiable _ | .unbounded | .suggestionRejected .. => False

/-- A value that a quantity can be declared with. -/
def Model.IsInitial (value : K) : Prop := ∃ name term producer, initialOf name term = .ok (value, producer)

/-- A solver in state `At n s` has the quantities below `n`. It takes the next one at any strength but the required one,
and whatever it says against rules over these quantities, it does not say that they misuse it. -/
structure Solver.Serves {σ : Type} [Solver σ K] (At : Nat → σ → Prop) : Prop where
  register : ∀ {n : Nat} {initial : K} {strength : Strength} {s : σ}, At n s → Model.IsInitial initial →
    strength ≠ .required → ∃ after, register n initial strength s = (.ok (), after) ∧ At (n + 1) after
  addRules : ∀ {n : Nat} {rules : List (Rule K)} {s after : σ} {e : SolverError K}, At n s →
    (∀ rule ∈ rules, rule.Below n) → addRules rules s = (.error e, after) → ¬ e.IsMisuse

section Serving
variable {σ : Type} [Solver σ K] {At : Nat → σ → Prop} {spec : Specification K} {strength : Strength} {solver after : σ}

theorem Model.AddsName.reaches (serves : Solver.Serves At) (optional : strength ≠ .required) {name : String}
    {m final : Model K} (added : AddsName spec strength name m solver final after)
    (here : At m.quantities.size solver) : At final.quantities.size after := by
  cases added with
  | formula => exact here
  | quantity _ read _ registered =>
    obtain ⟨other, again, next⟩ := serves.register here ⟨_, _, _, read⟩ optional
    rw [registered] at again
    cases again
    simpa [QuantityTable.size] using next

theorem Model.Builds.reaches (serves : Solver.Serves At) (optional : strength ≠ .required) {names : List String}
    {m final : Model K} (run : Builds spec strength names m solver final after) (here : At m.quantities.size solver) :
    At final.quantities.size after := by
  induction run with
  | nil => exact here
  | cons first _ ih => exact ih (first.reaches serves optional here)

/-- Every registration of a build comes with the next number. -/
theorem Model.registers_all (serves : Solver.Serves At) (optional : strength ≠ .required) {names : List String}
    (unique : names.Nodup) {m : Model K} (here : At m.quantities.size solver) (e : SolverError K) :
    addNames strength spec.quantities spec.formulas spec.prebuilt names m solver ≠ (.error (.solver e), after) := by
  intro failed
  obtain ⟨_, _, _, middle, between, _, run, stopped⟩ := addNames_error unique (fun _ _ => rfl) failed
  cases stopped with
  | solver _ read refused =>
    obtain ⟨_, registered, _⟩ := serves.register (run.reaches serves optional here) ⟨_, _, _, read⟩ optional
    rw [refused] at registered
    cases registered

/-- The rules come when all numbers below the size of the table are registered. -/
theorem Compilation.not_misuse (serves : Solver.Serves At) {options : BuildOptions}
    (optional : options.editStrength ≠ .required) (fresh : At 0 solver)
    (prebuilt : spec.prebuilt.Below spec.quantities.size) {e : SolverError K}
    (failed : compile spec options solver = (.error (.solver e), after)) : ¬ e.IsMisuse := by
  unfold compile at failed
  split at failed
  · cases failed
  · rename_i plan planned
    obtain ⟨single, ordered⟩ := planOf_ok_iff.mp planned
    have unique := Plan.order_nodup ordered
    split at failed
    · rename_i built
      cases failed
      exact absurd built (Model.registers_all serves optional unique (m := {}) fresh e)
    · rename_i model between built
      split at failed
      · cases failed
      · rename_i rules compiled
        split at failed
        · rename_i refused
          cases failed
          have run := Model.addNames_builds unique (fun _ _ => rfl) built
          -- With its rules kept from the solver the specification compiles, to the same formulas and rules.
          have ready : Compiled spec ⟨options.editStrength, false⟩ solver ⟨model, rules, plan, spec.prebuilt⟩ between :=
            ⟨single, ordered, rfl, ⟨between, run, rfl⟩, compiled⟩
          unfold submit at refused
          split at refused
          · exact serves.addRules (run.reaches serves optional fresh) (ready.below prebuilt).2 refused
          · cases refused
        · cases failed

theorem Layout.not_misuse (serves : Solver.Serves At) {settings : Settings K} (fresh : At 0 solver)
    (prebuilt : spec.prebuilt.Below spec.quantities.size) {e : SolverError K}
    (failed : build spec settings solver = .error (.solver e)) : ¬ e.IsMisuse := by
  unfold build at failed
  split at failed
  · cases failed
  · rename_i valid
    have optional : settings.editStrength ≠ .required := by
      intro required
      simp [Settings.validate, required] at valid
    dsimp only at failed
    split at failed
    · rename_i cause _ compiled
      cases cause with
      | compile => cases failed
      | solver =>
        cases failed
        exact Compilation.not_misuse serves optional fresh prebuilt compiled
    · cases failed

end Serving

namespace Recorder

def At (n : Nat) (r : Recorder K) : Prop := ∀ id : Nat, (r.values.lookup id).isSome = true ↔ id < n

theorem serves : Solver.Serves (At : Nat → Recorder K → Prop) where
  register := by
    intro n initial strength r here _ optional
    have unknown : (r.values.lookup n).isSome = false :=
      Bool.eq_false_iff.mpr fun known => Nat.lt_irrefl n ((here n).mp known)
    have registered : ∃ after, r.register n initial strength = (.ok (), after) := by
      simp [register, optional, unknown]
    obtain ⟨after, registered⟩ := registered
    refine ⟨after, registered, fun id => ?_⟩
    by_cases same : id = n
    · subst same
      simp [lookup_registered registered]
    · rw [lookup_of_register registered same, here id]
      omega
  addRules := by
    intro n rules r after e _ _ failed
    cases failed

end Recorder

/-- How an engine keeps its editable variables. A new engine has none; a variable that is not editable becomes so at the
level of any strength but the required one, and no other variable does. -/
structure Engine.AddsEdits (τ : Type) {K : Type} [Scalar K] [Engine τ K] : Prop where
  fresh : ∀ id, isEdit (fresh : τ) id = false
  taken : ∀ {id : QuantityId} {strength : Strength} {e : τ}, strength ≠ .required → isEdit e id = false →
    ∃ added, addEdit id strength.level e = (.ok (), added)
  others : ∀ {id other : QuantityId} {level : K} {e added : τ}, addEdit id level e = (.ok (), added) → other ≠ id →
    isEdit added other = isEdit e other
  suggested : ∀ {id other : QuantityId} {value : K} {e after : τ}, suggest id value e = (.ok (), after) →
    isEdit after other = isEdit e other

/-- A variable that has just been made editable takes the suggestion of an initial value. -/
def Engine.TakesInitial (τ : Type) {K : Type} [Scalar K] [Engine τ K] : Prop :=
  ∀ {id : QuantityId} {level initial : K} {e added : τ}, addEdit id level e = (.ok (), added) →
    Model.IsInitial initial → ∃ after, suggest id initial added = (.ok (), after)

theorem Constraint.quantities_ofRule {values : QuantityId → K} {rule : Rule K} {id : QuantityId}
    (member : id ∈ (ofRule values rule).form.quantities) : id ∈ rule.quantities := by
  obtain ⟨demand, strength, weight⟩ := rule
  cases demand with
  | relation left comparator right =>
    exact List.mem_append.mpr ((Affine.Combines.minus (a := left) (b := right)).quantities member)
  | stay target =>
    have kept := (Affine.Combines.minus (a := target) (b := .constant (target.evaluate values))).quantities member
    exact kept.resolve_right List.not_mem_nil

namespace EngineSolver
variable {τ : Type} [Engine τ K]

/-- The solver has registered the quantities below `n`, and its engine has no editable variable beside them. -/
structure At (n : Nat) (s : EngineSolver τ K) : Prop where
  known : ∀ id : Nat, s.knows id = true ↔ id < n
  edits : ∀ id : Nat, Engine.isEdit s.engine id = true → id < n

theorem constraint_of_known {s : EngineSolver τ K} {rule : Rule K} (known : ∀ id ∈ rule.quantities, s.knows id = true) :
    s.constraint rule = .ok (Constraint.ofRule s.valueAt rule) := by
  unfold constraint
  dsimp only
  split
  · rename_i id found
    have unknown : s.knows id = false := by simpa using List.find?_some found
    have mentioned := Constraint.quantities_ofRule (List.mem_of_find?_eq_some found)
    rw [known id mentioned] at unknown
    cases unknown
  · rfl

theorem addRules_not_misuse {s after : EngineSolver τ K} {rules : List (Rule K)} {e : SolverError K}
    (known : ∀ rule ∈ rules, ∀ id ∈ rule.quantities, s.knows id = true)
    (failed : s.addRules rules = (.error e, after)) : ¬ e.IsMisuse := by
  induction rules generalizing s with
  | nil => cases failed
  | cons rule rest ih =>
    rw [addRules] at failed
    split at failed
    · rename_i refused
      cases failed
      rw [addRule, constraint_of_known (known rule List.mem_cons_self)] at refused
      dsimp only at refused
      split at refused
      · cases refused
        exact id
      · cases refused
        exact id
      · cases refused
    · rename_i middle first
      obtain ⟨c, engine, _, _, rfl⟩ := addRule_taken first
      refine ih (fun other later => ?_) failed
      exact known other (List.mem_cons_of_mem _ later)

theorem register_next (addsEdits : Engine.AddsEdits τ) (takesInitial : Engine.TakesInitial τ) {initial : K}
    {strength : Strength} {s : EngineSolver τ K} (here : At n s) (isInitial : Model.IsInitial initial)
    (optional : strength ≠ .required) : ∃ after, s.register n initial strength = (.ok (), after) := by
  have unknown : s.knows n = false := Bool.eq_false_iff.mpr fun known => Nat.lt_irrefl n ((here.known n).mp known)
  have notEdit : Engine.isEdit s.engine n = false :=
    Bool.eq_false_iff.mpr fun edit => Nat.lt_irrefl n (here.edits n edit)
  obtain ⟨added, edit⟩ := addsEdits.taken optional notEdit
  obtain ⟨suggested, taken⟩ := takesInitial edit isInitial
  simp [register, unknown, optional, edit, taken]

theorem serves (addsEdits : Engine.AddsEdits τ) (takesInitial : Engine.TakesInitial τ) :
    Solver.Serves (At : Nat → EngineSolver τ K → Prop) where
  register := by
    intro n initial strength s here isInitial optional
    obtain ⟨after, registered⟩ := register_next addsEdits takesInitial here isInitial optional
    obtain ⟨_, added, suggested, edit, taken, rfl⟩ := register_taken registered
    refine ⟨_, registered, fun id => ?_, fun id isEdit => ?_⟩
    · have known : (s.adjustables.lookup id).isSome = true ↔ id < n := here.known id
      rw [knows, lookup_concat, Option.isSome_or, Bool.or_eq_true, known]
      by_cases same : id = n <;> simp [same]
      omega
    · rw [addsEdits.suggested taken] at isEdit
      by_cases same : id = n
      · omega
      · rw [addsEdits.others edit same] at isEdit
        exact Nat.lt_succ_of_lt (here.edits id isEdit)
  addRules := by
    intro n rules s after e here below failed
    exact addRules_not_misuse (fun rule among id member => (here.known id).mpr (below rule among id member)) failed

theorem at_fresh (addsEdits : Engine.AddsEdits τ) : At 0 ({} : EngineSolver τ K) where
  known id := by simp [knows]
  edits id isEdit := by
    rw [addsEdits.fresh id] at isEdit
    cases isEdit

end EngineSolver

namespace Optimizer

theorem addsEdits
    (levels : ∀ strength : Strength, strength ≠ .required → strength.level < (Strength.required.level : K)) :
    Engine.AddsEdits (Optimizer K) where
  fresh _ := rfl
  taken := by
    intro id strength m optional notEdit
    have unknown : (m.find? id).isSome = false := notEdit
    change ∃ added, m.addEdit id strength.level = (.ok (), added)
    simp [addEdit, unknown, levels strength optional]
  others := by
    intro id other level m added edit different
    refine Bool.eq_iff_iff.mpr ?_
    rw [isEdit_iff, isEdit_iff, ids_addEdit edit]
    simp [different]
  suggested := by
    intro id other value m after suggested
    refine Bool.eq_iff_iff.mpr ?_
    rw [isEdit_iff, isEdit_iff, ids_suggest suggested]

theorem takesInitial : Engine.TakesInitial (Optimizer K) := by
  intro id level initial m added edit _
  have isEdit : (added.find? id).isSome = true := keepsEdits.added edit
  change ∃ after, added.suggest id initial = (.ok (), after)
  simp [suggest, Option.isNone_eq_false_iff.mpr isEdit]

end Optimizer

namespace Layout

/-- The formulas and rules of a layout mention none but its own quantities. -/
structure Closed {σ : Type} (s : Layout K σ) : Prop where
  formulas : ∀ name e, s.formulas.get? name = some e → ∀ id ∈ e.quantities, s.quantities.contains id = true
  rules : ∀ rule ∈ s.rules, ∀ id ∈ rule.quantities, s.quantities.contains id = true

theorem closed_of_build {σ : Type} [Solver σ K] {spec : Specification K} {settings : Settings K} {solver : σ}
    {s : Layout K σ} (prebuilt : spec.prebuilt.Below spec.quantities.size)
    (built : build spec settings solver = .ok s) : s.Closed := by
  obtain ⟨_, c, after, compiles, rfl⟩ := build_ok_iff.mp built
  obtain ⟨formulas, rules⟩ := (Compilation.compile_ok compiles).below prebuilt
  exact ⟨fun name e stored id member => QuantityTable.contains_iff.mpr (formulas name e stored id member),
    fun rule among id member => QuantityTable.contains_iff.mpr (rules rule among id member)⟩

/-- If the expressions that existed before keep to the declared quantities, so does everything that is built with them,
and a solver that starts without quantities is not misused by the build. -/
theorem build_closed (spec : Specification K) (settings : Settings K)
    (prebuilt : spec.prebuilt.Below spec.quantities.size) :
    (∀ (σ : Type) [Solver σ K] (solver : σ) (s : Layout K σ), build spec settings solver = .ok s → s.Closed) ∧
      (∀ e, build spec settings ({} : Recorder K) = .error (.solver e) → ¬ e.IsMisuse) ∧
      ∀ (τ : Type) [Engine τ K], Engine.AddsEdits τ → Engine.TakesInitial τ →
        ∀ e, build spec settings ({} : EngineSolver τ K) = .error (.solver e) → ¬ e.IsMisuse := by
  refine ⟨fun σ _ solver s built => closed_of_build prebuilt built, fun e failed => ?_, ?_⟩
  · exact not_misuse Recorder.serves (fun id => by simp) prebuilt failed
  · intro τ _ addsEdits takesInitial e failed
    exact not_misuse (EngineSolver.serves addsEdits takesInitial) (EngineSolver.at_fresh addsEdits) prebuilt failed

/-- Numbers of quantities come in by an expression that existed before, as built values, and by a nested array. -/
def inlined : Specification Float :=
  let spec : Specification Float := {}
  spec
    |>.declare "width" (.number 4)
    |>.declare "height" (.producer (.constant 3))
    |>.define "half" (.array [.reference "width", .token (.operator .divide), .number 2])
    |>.define "area" (.array [.reference "span", .token (.operator .subtract), .array [.reference "half"],
      .token (.operator .add), .built (.quantity 0)])
    |>.assume "span" ((Affine.quantity 0).plus (.quantity 1))
    |>.require (.array [.reference "area", .token (.comparator .equal), .built (.expression (.quantity 1))])

/-- With a rule that cannot hold. -/
def clashing : Specification Float :=
  inlined.require (.array [.number 1, .token (.comparator .equal), .number 2, .token (.strength .required)])

/-- The second build fails with the rule that cannot hold, which is no misuse of the solver. -/
theorem build_closed_inlined :
    (∃ s, build inlined .standard ({} : Minimizer Float) = .ok s ∧ s.Closed) ∧
      ∃ e, build clashing .standard ({} : Minimizer Float) = .error (.solver e) ∧ ¬ e.IsMisuse := by
  have prebuilt : inlined.prebuilt.Below inlined.quantities.size := by
    intro name e stored
    have ids : ∀ entry ∈ inlined.prebuilt.entries, ∀ id ∈ entry.2.quantities, id < inlined.quantities.size := by
      decide +kernel
    exact ids (name, e) (NameTable.mem_of_get? stored)
  have levels (strength : Strength) (optional : strength ≠ .required) :
      strength.level < (Strength.required.level : Float) := by
    cases strength with
    | required => exact absurd rfl optional
    | weak | medium | strong => decide +kernel
  have accepted : (build inlined .standard ({} : Minimizer Float)).isOk = true := by decide +kernel
  have refused : (match build clashing .standard ({} : Minimizer Float) with
    | .error (.solver _) => true
    | _ => false) = true := by decide +kernel
  constructor
  · cases built : build inlined .standard ({} : Minimizer Float) with
    | error e =>
      rw [built] at accepted
      cases accepted
    | ok s => exact ⟨s, rfl, (build_closed inlined .standard prebuilt).1 _ _ s built⟩
  · split at refused
    · rename_i e failed
      exact ⟨e, failed, (build_closed clashing .standard prebuilt).2.2 (Optimizer Float) (Optimizer.addsEdits levels)
        Optimizer.takesInitial e failed⟩
    · cases refused

end Layout
end ReactiveLayout
