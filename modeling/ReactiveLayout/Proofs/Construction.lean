import Mathlib
import ReactiveLayout.Compilation
import ReactiveLayout.Recorder
import ReactiveLayout.Proofs.BuildOrder
import ReactiveLayout.Proofs.Resolution

/-! The run that builds a layout, one name of the plan after the other, as a relation on the models and solver states
in between. What an accepted compilation went through is said once, in `Compiled`; everything known of a built layout
is read off this run. -/
namespace ReactiveLayout
variable {K σ : Type} [Scalar K] [Solver σ K]

/-- The value that a quantity is declared with. A produced one starts at zero. -/
def Term.initial : Term K → K
  | .number value | .descriptor value => value
  | _ => 0

namespace Model

omit [Solver σ K] in
theorem initialOf_ok {name : String} {term : Term K} {initial : K} {producer : Option (Producer K)}
    (read : initialOf name term = .ok (initial, producer)) :
    initial = term.initial ∧ ∀ elements, term ≠ .array elements := by
  unfold initialOf at read
  cases term with
  | number value | descriptor value =>
    by_cases finite : Scalar.isFinite value = true
    · simp only [Term.classify, Term.kind?, finite, if_true] at read
      cases read
      refine ⟨rfl, ?_⟩
      intro elements array
      cases array
    · simp only [Term.classify, Term.kind?, finite, Bool.false_eq_true, if_false] at read
      cases read
  | producer source =>
    cases read
    refine ⟨rfl, ?_⟩
    intro elements array
    cases array
  | reference | token | array | built => cases read

/-- All that building one name of a specification can be. -/
inductive AddsName (spec : Specification K) (strength : Strength) (name : String) (m : Model K) (solver : σ) :
    Model K → σ → Prop where
  | quantity {term : Term K} {initial : K} {producer : Option (Producer K)} {after : σ}
      (declared : spec.quantities.get? name = some term)
      (read : initialOf name term = .ok (initial, producer))
      (fresh : m.quantities.id? name = none)
      (registered : Solver.register m.quantities.size initial strength solver = (.ok (), after)) :
      AddsName spec strength name m solver
        { m with
          quantities := ⟨m.quantities.entries ++ [⟨name, initial⟩]⟩
          producers := m.producers ++ (producer.map fun p => (m.quantities.size, p)).toList }
        after
  | formula {term : Term K} {e : Affine K}
      (undeclared : spec.quantities.get? name = none)
      (declared : spec.formulas.get? name = some term)
      (compiled : expressionOf name term (m.scope spec.prebuilt) = .ok e) :
      AddsName spec strength name m solver { m with formulas := m.formulas.insert name e } solver

theorem addName_ok {spec : Specification K} {strength : Strength} {quantities : NameTable (Term K)} {name : String}
    {m final : Model K} {solver after : σ} (same : quantities.get? name = spec.quantities.get? name)
    (added : addName strength quantities spec.formulas spec.prebuilt name m solver = (.ok final, after)) :
    AddsName spec strength name m solver final after := by
  unfold addName at added
  split at added
  · rename_i term declared
    unfold addQuantity at added
    split at added
    · cases added
    · rename_i initial producer read
      split at added
      · cases added
      · rename_i id table inserted
        obtain ⟨fresh, rfl, rfl⟩ := QuantityTable.insert?_eq_some_iff.mp inserted
        split at added
        · cases added
        · rename_i registered
          cases added
          exact .quantity (same ▸ declared) read fresh registered
  · rename_i undeclared
    split at added
    · cases added
    · rename_i term declared
      split at added
      · cases added
      · rename_i e compiled
        cases added
        exact .formula (same ▸ undeclared) declared compiled

/-- Names of a specification built in turn. -/
inductive Builds (spec : Specification K) (strength : Strength) :
    List String → Model K → σ → Model K → σ → Prop where
  | nil {m : Model K} {solver : σ} : Builds spec strength [] m solver m solver
  | cons {name : String} {rest : List String} {m middle final : Model K} {solver between after : σ}
      (first : AddsName spec strength name m solver middle between)
      (later : Builds spec strength rest middle between final after) :
      Builds spec strength (name :: rest) m solver final after

/-- A name that is built takes its quantity out of the table, which no other name notices. -/
theorem addNames_builds {spec : Specification K} {strength : Strength} {quantities : NameTable (Term K)}
    {names : List String} {m final : Model K} {solver after : σ} (unique : names.Nodup)
    (same : ∀ name ∈ names, quantities.get? name = spec.quantities.get? name)
    (built : addNames strength quantities spec.formulas spec.prebuilt names m solver = (.ok final, after)) :
    Builds spec strength names m solver final after := by
  induction names generalizing quantities m solver with
  | nil =>
    cases built
    exact .nil
  | cons name rest ih =>
    obtain ⟨absent, unique⟩ := List.nodup_cons.mp unique
    rw [addNames] at built
    split at built
    · cases built
    · rename_i middle between added
      refine .cons (addName_ok (same name List.mem_cons_self) added) (ih unique (fun other member => ?_) built)
      have different : other ≠ name := fun equal => absent (equal ▸ member)
      rw [NameTable.get?_erase_ne _ different]
      exact same other (List.mem_cons_of_mem _ member)

variable {spec : Specification K} {strength : Strength} {names : List String} {m final : Model K} {solver after : σ}

theorem Builds.append {front back : List String} (run : Builds spec strength (front ++ back) m solver final after) :
    ∃ middle between, Builds spec strength front m solver middle between ∧
      Builds spec strength back middle between final after := by
  induction front generalizing m solver with
  | nil => exact ⟨m, solver, .nil, run⟩
  | cons name rest ih =>
    cases run with
    | cons first later =>
      obtain ⟨middle, between, early, late⟩ := ih later
      exact ⟨middle, between, .cons first early, late⟩

theorem AddsName.id?_ne {name other : String} (added : AddsName spec strength name m solver final after)
    (different : other ≠ name) : final.quantities.id? other = m.quantities.id? other := by
  cases added with
  | quantity => exact m.quantities.id?_append_ne _ different
  | formula => rfl

theorem AddsName.formula_ne {name other : String} (added : AddsName spec strength name m solver final after)
    (different : other ≠ name) : final.formulas.get? other = m.formulas.get? other := by
  cases added with
  | quantity => rfl
  | formula => exact m.formulas.get?_insert_ne _ different

theorem AddsName.size_le {name : String} (added : AddsName spec strength name m solver final after) :
    m.quantities.size ≤ final.quantities.size := by
  cases added with
  | quantity => simp [QuantityTable.size]
  | formula => exact Nat.le_refl _

theorem Builds.id?_of_notMem (run : Builds spec strength names m solver final after) {other : String}
    (apart : other ∉ names) : final.quantities.id? other = m.quantities.id? other := by
  induction run with
  | nil => rfl
  | cons first _ ih =>
    obtain ⟨different, apart⟩ := List.ne_and_not_mem_of_not_mem_cons apart
    rw [ih apart, first.id?_ne different]

theorem Builds.formula_of_notMem (run : Builds spec strength names m solver final after) {other : String}
    (apart : other ∉ names) : final.formulas.get? other = m.formulas.get? other := by
  induction run with
  | nil => rfl
  | cons first _ ih =>
    obtain ⟨different, apart⟩ := List.ne_and_not_mem_of_not_mem_cons apart
    rw [ih apart, first.formula_ne different]

theorem Builds.declared_of_formula (run : Builds spec strength names m solver final after) {other : String}
    {e : Affine K} (stored : final.formulas.get? other = some e) :
    m.formulas.get? other = some e ∨ ∃ term, spec.formulas.get? other = some term := by
  induction run with
  | nil => exact .inl stored
  | @cons name _ m middle _ _ _ _ first _ ih =>
    refine (ih stored).elim (fun earlier => ?_) .inr
    by_cases here : other = name
    · cases first with
      | quantity => exact .inl earlier
      | formula _ declared _ => exact .inr ⟨_, here ▸ declared⟩
    · rw [first.formula_ne here] at earlier
      exact .inl earlier

theorem AddsName.mem_names_iff {name : String} (added : AddsName spec strength name m solver final after)
    (other : String) : (other ∈ final.quantities.names ∨ other ∈ final.formulas.names) ↔
      other = name ∨ other ∈ m.quantities.names ∨ other ∈ m.formulas.names := by
  cases added with
  | quantity =>
    simp only [QuantityTable.names, List.map_append, List.map_cons, List.map_nil, List.mem_append, List.mem_singleton]
    rw [or_comm (b := other = name), or_assoc]
  | formula =>
    rw [NameTable.mem_names_insert]
    exact or_left_comm

/-- A run of the build binds the names that it builds, each as a quantity or as a formula, and no others. -/
theorem Builds.mem_names_iff (run : Builds spec strength names m solver final after) (other : String) :
    (other ∈ final.quantities.names ∨ other ∈ final.formulas.names) ↔
      other ∈ names ∨ other ∈ m.quantities.names ∨ other ∈ m.formulas.names := by
  induction run with
  | nil => simp
  | cons first _ ih => rw [ih, first.mem_names_iff, List.mem_cons, or_left_comm, or_assoc]

theorem Builds.size_le (run : Builds spec strength names m solver final after) :
    m.quantities.size ≤ final.quantities.size := by
  induction run with
  | nil => exact Nat.le_refl _
  | cons first _ ih => exact Nat.le_trans first.size_le ih

/-- Names that are not built on the way keep their meaning. -/
theorem Builds.agrees (run : Builds spec strength names m solver final after) (prebuilt : NameTable (Affine K))
    {referred : List String} (apart : ∀ other ∈ referred, other ∉ names) :
    Scope.Agrees referred (m.scope prebuilt) (final.scope prebuilt) where
  binding other member := by
    simp only [Scope.binding?, scope, run.id?_of_notMem (apart other member), run.formula_of_notMem (apart other member)]
  size := run.size_le

theorem Builds.initialOf (run : Builds spec strength names m solver final after) {name : String} {term : Term K}
    (member : name ∈ names) (declared : spec.quantities.get? name = some term) :
    ∃ read, Model.initialOf name term = .ok read := by
  induction run with
  | nil => cases member
  | cons first _ ih =>
    rcases List.mem_cons.mp member with rfl | later
    · cases first with
      | quantity found read _ _ =>
        obtain rfl := Option.some.inj (declared.symm.trans found)
        exact ⟨_, read⟩
      | formula undeclared _ _ =>
        rw [declared] at undeclared
        cases undeclared
    · exact ih later

/-- The quantity of a name, if it is declared as one. -/
def quantity? (spec : Specification K) (name : String) : Option (Quantity K) :=
  (spec.quantities.get? name).map fun term => ⟨name, term.initial⟩

/-- The table grows by the quantities among the names, in the order in which they are built. -/
theorem Builds.entries (run : Builds spec strength names m solver final after) :
    final.quantities.entries = m.quantities.entries ++ names.filterMap (quantity? spec) := by
  induction run with
  | nil => simp
  | cons first _ ih =>
    rw [ih, List.filterMap_cons]
    cases first with
    | quantity declared read _ _ => simp [quantity?, declared, (initialOf_ok read).1]
    | formula undeclared _ _ => simp [quantity?, undeclared]

end Model

omit [Solver σ K] in
theorem Rule.compileAll_ok {scope : Scope K} {tuples : List (List (Term K))} {rules : List (Rule K)}
    (compiled : compileAll scope tuples = .ok rules) :
    List.Forall₂ (fun tuple rule => compile scope tuple = .ok rule) tuples rules := by
  induction tuples generalizing rules with
  | nil =>
    cases compiled
    exact .nil
  | cons tuple rest ih =>
    rw [compileAll] at compiled
    split at compiled
    · cases compiled
    · rename_i rule first
      split at compiled
      · cases compiled
      · rename_i others later
        cases compiled
        exact .cons first (ih later)

omit [Solver σ K] in
theorem Rule.forall_of_compileAll {scope : Scope K} {tuples : List (List (Term K))} {rules : List (Rule K)}
    {P : Rule K → Prop} (each : ∀ tuple rule, compile scope tuple = .ok rule → P rule)
    (compiled : compileAll scope tuples = .ok rules) : ∀ rule ∈ rules, P rule := by
  have tuples := compileAll_ok compiled
  clear compiled
  induction tuples with
  | nil => exact fun _ member => (nomatch member)
  | cons first _ ih =>
    intro rule member
    rcases List.mem_cons.mp member with rfl | later
    · exact each _ _ first
    · exact ih rule later

omit [Solver σ K] in
theorem Rule.mem_of_compileAll {scope : Scope K} {tuples : List (List (Term K))} {rules : List (Rule K)}
    (compiled : List.Forall₂ (fun tuple rule => compile scope tuple = .ok rule) tuples rules) {tuple : List (Term K)}
    (member : tuple ∈ tuples) : ∃ rule ∈ rules, compile scope tuple = .ok rule := by
  induction compiled with
  | nil => cases member
  | cons first _ ih =>
    rcases List.mem_cons.mp member with rfl | later
    · exact ⟨_, List.mem_cons_self, first⟩
    · obtain ⟨rule, found, compiled⟩ := ih later
      exact ⟨rule, List.mem_cons_of_mem _ found, compiled⟩

namespace Compilation

omit [Solver σ K] in
theorem planOf_ok_iff {spec : Specification K} {plan : Plan} :
    planOf spec = .ok plan ↔ doubleName? spec = none ∧ Plan.order (spec.quantities.union spec.formulas) = .ok plan := by
  unfold planOf
  cases doubleName? spec <;> simp

omit [Solver σ K] in
theorem mem_planOf_iff {spec : Specification K} {plan : Plan} (planned : planOf spec = .ok plan) (name : String) :
    name ∈ plan.names ↔ name ∈ spec.quantities.names ∨ name ∈ spec.formulas.names := by
  rw [Plan.mem_order_iff (planOf_ok_iff.mp planned).2, NameTable.mem_names_union]

/-- What an accepted specification went through. -/
structure Compiled (spec : Specification K) (options : BuildOptions) (solver : σ) (c : Compilation K) (after : σ) :
    Prop where
  single : doubleName? spec = none
  ordered : Plan.order (spec.quantities.union spec.formulas) = .ok c.plan
  prebuilt : c.prebuilt = spec.prebuilt
  built : ∃ between, Model.Builds spec options.editStrength c.plan.names {} solver c.model between ∧
    submit options c.rules between = (.ok (), after)
  rules : Rule.compileAll (c.model.scope spec.prebuilt) spec.rules = .ok c.rules

theorem compile_ok {spec : Specification K} {options : BuildOptions} {solver after : σ} {c : Compilation K}
    (accepted : compile spec options solver = (.ok c, after)) : Compiled spec options solver c after := by
  unfold compile at accepted
  split at accepted
  · cases accepted
  · rename_i plan planned
    obtain ⟨single, ordered⟩ := planOf_ok_iff.mp planned
    split at accepted
    · cases accepted
    · rename_i model between built
      split at accepted
      · cases accepted
      · rename_i rules compiled
        split at accepted
        · cases accepted
        · rename_i submitted
          cases accepted
          have run := Model.addNames_builds (Plan.order_nodup ordered) (fun _ _ => rfl) built
          exact ⟨single, ordered, rfl, ⟨between, run, submitted⟩, compiled⟩

variable {spec : Specification K} {options : BuildOptions} {solver after : σ} {c : Compilation K}

omit [Scalar K] in
theorem disjoint_of_single (single : doubleName? spec = none) {name : String} (declared : name ∈ spec.quantities.names) :
    name ∉ spec.formulas.names := by
  intro twice
  have alone := List.find?_eq_none.mp single name declared
  exact alone ((NameTable.contains_iff _ _).mpr twice)

/-- The name of a formula is in the plan, bound to its term and to nothing else. -/
theorem Compiled.union_formula (compiled : Compiled spec options solver c after) {name : String} {term : Term K}
    (declared : spec.formulas.get? name = some term) :
    (spec.quantities.union spec.formulas).get? name = some term ∧ spec.quantities.get? name = none := by
  refine ⟨by rw [NameTable.get?_union, declared, Option.some_or], ?_⟩
  rw [NameTable.get?_eq_none_iff]
  intro twice
  exact disjoint_of_single compiled.single twice (NameTable.mem_names_of_get? declared)

theorem Compiled.mem_plan_iff (compiled : Compiled spec options solver c after) (name : String) :
    name ∈ c.plan.names ↔ name ∈ spec.quantities.names ∨ name ∈ spec.formulas.names :=
  mem_planOf_iff (planOf_ok_iff.mpr ⟨compiled.single, compiled.ordered⟩) name

/-- What a formula was compiled to is what it compiles to in the finished layout. Its references were built before,
so nothing that was built from then on is among them. -/
theorem Compiled.expressionOf (compiled : Compiled spec options solver c after) {name : String} {term : Term K}
    (declared : spec.formulas.get? name = some term) :
    ∃ e, c.model.formulas.get? name = some e ∧
      Model.expressionOf name term (c.model.scope spec.prebuilt) = .ok e := by
  obtain ⟨bound, notQuantity⟩ := compiled.union_formula declared
  have planned : name ∈ c.plan.names :=
    (compiled.mem_plan_iff name).mpr (.inr (NameTable.mem_names_of_get? declared))
  obtain ⟨front, back, split⟩ := List.append_of_mem planned
  have unique := Plan.order_nodup compiled.ordered
  rw [split] at unique
  obtain ⟨_, uniqueBack, apart⟩ := List.nodup_append.mp unique
  obtain ⟨_, run, _⟩ := compiled.built
  rw [split] at run
  obtain ⟨middle, _, _, rest⟩ := run.append
  have whole := rest
  cases rest with
  | cons first later =>
    cases first with
    | quantity found _ _ _ =>
      rw [notQuantity] at found
      cases found
    | @formula other e _ found here =>
      obtain rfl := Option.some.inj (declared.symm.trans found)
      refine ⟨e, ?_, ?_⟩
      · rw [later.formula_of_notMem (List.nodup_cons.mp uniqueBack).1]
        exact NameTable.get?_insert_self _ _ _
      · refine Model.expressionOf_agrees (whole.agrees spec.prebuilt fun other refers => ?_) here
        -- Only an array has references of its own here: a bare reference does not compile.
        cases term with
        | array elements =>
          by_cases key : other ∈ (spec.quantities.union spec.formulas).names
          · have early := Plan.mem_front_of_references compiled.ordered split bound refers key
            exact fun late => apart other early other late rfl
          · intro late
            refine key ((Plan.mem_order_iff compiled.ordered other).mp ?_)
            rw [split]
            exact List.mem_append_right _ late
        | reference => cases here
        | number | descriptor | token | producer | built => cases refers

/-- The quantities are built by name: they are no arrays, so they come in order at the front of the plan. -/
theorem Compiled.filter_plan (compiled : Compiled spec options solver c after) :
    (c.plan.names.filter fun name => spec.quantities.contains name) = spec.quantities.names := by
  obtain ⟨_, run, _⟩ := compiled.built
  rw [Plan.filter_order compiled.ordered]
  · refine NameTable.eq_of_ordered ((spec.quantities.union spec.formulas).ordered.filter _) spec.quantities.ordered ?_
    intro name
    rw [List.mem_filter, NameTable.contains_iff]
    exact and_iff_right_of_imp fun declared => (NameTable.mem_names_union _ _ _).mpr (.inl declared)
  · intro name key declared
    have quantity := (NameTable.contains_iff _ _).mp declared
    obtain ⟨term, found⟩ := (NameTable.mem_names_iff _ _).mp quantity
    obtain ⟨read, initial⟩ := run.initialOf ((Plan.mem_order_iff compiled.ordered name).mpr key) found
    have notFormula := (NameTable.get?_eq_none_iff _ _).mpr (disjoint_of_single compiled.single quantity)
    refine Plan.isNone_arrayOf? ?_ (Model.initialOf_ok initial).2
    rw [NameTable.get?_union, notFormula, Option.none_or, found]

/-- The quantities of a built layout are those of the specification, numbered by name, at their initial values. -/
theorem Compiled.quantities (compiled : Compiled spec options solver c after) :
    c.model.quantities = ⟨spec.quantities.entries.map fun entry => ⟨entry.1, entry.2.initial⟩⟩ := by
  obtain ⟨_, run, _⟩ := compiled.built
  have entries : c.model.quantities.entries = c.plan.names.filterMap (Model.quantity? spec) := run.entries
  have declaredOnly : c.plan.names.filterMap (Model.quantity? spec) =
      spec.quantities.names.filterMap (Model.quantity? spec) := by
    rw [← compiled.filter_plan, List.filterMap_filter]
    refine List.filterMap_congr fun name _ => ?_
    by_cases declared : spec.quantities.contains name = true
    · simp [declared]
    · have absent : spec.quantities.get? name = none := by
        rw [NameTable.get?_eq_none_iff]
        exact fun key => declared ((NameTable.contains_iff _ _).mpr key)
      simp [declared, Model.quantity?, absent]
  have mapped : spec.quantities.names.filterMap (Model.quantity? spec) =
      spec.quantities.entries.map fun entry => ⟨entry.1, entry.2.initial⟩ := by
    rw [NameTable.names, List.filterMap_map]
    refine List.filterMap_eq_map_iff_forall_eq_some.mpr fun entry member => ?_
    simp [Model.quantity?, NameTable.get?_of_mem member]
  rw [← mapped, ← declaredOnly, ← entries]

theorem Compiled.quantity_names (compiled : Compiled spec options solver c after) :
    c.model.quantities.names = spec.quantities.names := by
  rw [compiled.quantities, QuantityTable.names, List.map_map]
  rfl

theorem Compiled.formula_names (compiled : Compiled spec options solver c after) :
    c.model.formulas.names = spec.formulas.names := by
  obtain ⟨_, run, _⟩ := compiled.built
  apply NameTable.eq_of_ordered c.model.formulas.ordered spec.formulas.ordered
  intro name
  constructor
  · intro stored
    obtain ⟨e, stored⟩ := (NameTable.mem_names_iff _ _).mp stored
    rcases run.declared_of_formula stored with atStart | ⟨term, declared⟩
    · cases atStart
    · exact NameTable.mem_names_of_get? declared
  · intro declared
    obtain ⟨term, declared⟩ := (NameTable.mem_names_iff _ _).mp declared
    obtain ⟨e, stored, _⟩ := compiled.expressionOf declared
    exact NameTable.mem_names_of_get? stored

/-- A built layout is a fixed point of its own compilation: in the finished scope every formula array compiles to the
stored expression again, and every rule to itself. -/
theorem compile_isFixedPoint (accepted : compile spec options solver = (.ok c, after)) :
    (∀ name elements, spec.formulas.get? name = some (.array elements) →
      ∃ e, c.model.formulas.get? name = some e ∧
        Formula.compile name elements (c.model.scope spec.prebuilt) = .ok e) ∧
      List.Forall₂ (fun tuple rule => Rule.compile (c.model.scope spec.prebuilt) tuple = .ok rule)
        spec.rules c.rules := by
  have compiled := compile_ok accepted
  refine ⟨fun name elements declared => ?_, Rule.compileAll_ok compiled.rules⟩
  obtain ⟨e, stored, again⟩ := compiled.expressionOf declared
  refine ⟨e, stored, ?_⟩
  unfold Model.expressionOf at again
  rwa [Term.classify_eq_array_iff.mpr rfl] at again

/-- The formula `area` stands in front of `size` by name and needs it, and an expression that existed before has the
name `size` as well. -/
def shadowed : Specification Rat :=
  let spec : Specification Rat := {}
  spec
    |>.declare "width" (.number 4)
    |>.declare "height" (.producer (.constant 3))
    |>.define "size" (.array [.reference "width", .token (.operator .add), .reference "height"])
    |>.define "area" (.array [.reference "unit", .token (.operator .subtract), .array [.reference "size"],
      .token (.operator .multiply), .number 2])
    |>.assume "size" (.constant 100)
    |>.assume "unit" (.constant 5)
    |>.require (.array [.reference "area", .token (.comparator .equal), .reference "size"])

theorem shadowed_accepted : ∃ c after, compile shadowed {} ({} : Recorder Rat) = (.ok c, after) := by
  have ok : (compile shadowed {} ({} : Recorder Rat)).1.isOk = true := by cbv
  generalize compile shadowed {} ({} : Recorder Rat) = reply at ok
  obtain ⟨answer, after⟩ := reply
  cases answer with
  | error e => cases ok
  | ok c => exact ⟨c, after, rfl⟩

theorem shadowed_isFixedPoint : ∃ c after, compile shadowed {} ({} : Recorder Rat) = (.ok c, after) ∧
    (∀ name elements, shadowed.formulas.get? name = some (.array elements) →
      ∃ e, c.model.formulas.get? name = some e ∧
        Formula.compile name elements (c.model.scope shadowed.prebuilt) = .ok e) ∧
      List.Forall₂ (fun tuple rule => Rule.compile (c.model.scope shadowed.prebuilt) tuple = .ok rule)
        shadowed.rules c.rules := by
  obtain ⟨c, after, accepted⟩ := shadowed_accepted
  exact ⟨c, after, accepted, compile_isFixedPoint accepted⟩

end Compilation
end ReactiveLayout
