import ReactiveLayout.Proofs.Noninterference
import ReactiveLayout.Proofs.Rebuild
import ReactiveLayout.Proofs.Rewriting

/-! A formula that is one value, written as it is or as an array of one element. The two spellings stand in different
places of the plan: the value among the names that are no arrays, by name, and the array behind all of them. A number
compiles anywhere, but a built value is held against the quantities that are built so far, which in its own place are
those with smaller names. So the array is always accepted where the bare value is, and the layout is the same; the bare
value is accepted only if in addition all its quantities come before the formula. -/
namespace ReactiveLayout
variable {K : Type} [Scalar K]

/-- The bare terms that a formula can consist of, each with its expression. -/
inductive Term.IsValue : Term K → Affine K → Prop where
  | number {value : K} (finite : Scalar.isFinite value = true) : IsValue (.number value) (.constant value)
  | quantity (id : QuantityId) : IsValue (.built (.quantity id)) (.quantity id)
  | expression (e : Affine K) : IsValue (.built (.expression e)) e

/-- The two spellings of a value. -/
inductive Term.Spells : Term K → Affine K → Prop where
  | bare {term : Term K} {e : Affine K} (value : term.IsValue e) : Spells term e
  | bracketed {term : Term K} {e : Affine K} (value : term.IsValue e) : Spells (.array [term]) e

open Term

theorem Term.IsValue.notArray {term : Term K} {e : Affine K} (value : term.IsValue e) :
    ∀ elements, term ≠ .array elements := by
  intro elements
  cases value <;> simp

theorem Term.IsValue.isAtom {term : Term K} {e : Affine K} (value : term.IsValue e) : term.IsAtom := by
  cases value with
  | number finite => exact finite
  | quantity | expression => exact trivial

theorem Term.Spells.references {term : Term K} {e : Affine K} (spells : term.Spells e) : term.references = [] := by
  cases spells with
  | bare value => cases value <;> rfl
  | bracketed value => cases value <;> rfl

namespace Model
variable {scope : Scope K} {name : String} {term : Term K} {e x : Affine K}

theorem operand_iff_of_isValue (value : term.IsValue e) :
    Formula.Operand scope term x ↔ x = e ∧ ∀ id ∈ e.quantities, id < scope.quantities.size := by
  cases value with
  | number finite =>
    constructor
    · intro operand
      cases operand
      exact ⟨rfl, fun _ member => absurd member List.not_mem_nil⟩
    · rintro ⟨rfl, _⟩
      exact .number finite
  | quantity id => exact Formula.operand_built_iff.trans Scope.accept_ok_iff
  | expression e => exact Formula.operand_built_iff.trans Scope.accept_ok_iff

theorem expressionOf_spells_iff (spells : term.Spells e) :
    expressionOf name term scope = .ok x ↔ x = e ∧ ∀ id ∈ e.quantities, id < scope.quantities.size := by
  cases spells with
  | bare value =>
    rw [← operand_iff_of_isValue value, ← Rule.operand_ok_iff]
    cases value with
    | number finite => simp only [expressionOf, Rule.operand, classify, kind?, finite, if_true]
    | quantity | expression => rfl
  | bracketed value =>
    rw [← operand_iff_of_isValue value, ← Formula.sentence_singleton_iff]
    exact ⟨Formula.sentence_of_compile, Formula.compile_of_sentence⟩

theorem isValue_of_expressionOf (notArray : ∀ elements, term ≠ .array elements)
    (compiled : expressionOf name term scope = .ok e) : term.IsValue e := by
  cases term with
  | number value =>
    by_cases finite : Scalar.isFinite value = true
    · simp only [expressionOf, classify, kind?, finite, if_true] at compiled
      cases compiled
      exact .number finite
    · simp only [expressionOf, classify, kind?, finite, Bool.false_eq_true, if_false] at compiled
      cases compiled
  | descriptor value =>
    by_cases finite : Scalar.isFinite value = true <;> simp [expressionOf, classify, kind?, finite] at compiled
  | array elements => exact absurd rfl (notArray elements)
  | built primitive =>
    cases primitive with
    | strength => cases compiled
    | quantity id =>
      obtain ⟨rfl, _⟩ := Scope.accept_ok_iff.mp compiled
      exact .quantity id
    | expression built =>
      obtain ⟨rfl, _⟩ := Scope.accept_ok_iff.mp compiled
      exact .expression _
  | reference | token | producer => cases compiled

end Model

/-- Two specifications that differ in how they spell the value `e` of the formula `f` and in nothing else. -/
structure Respelled (f : String) (e : Affine K) (spec other : Specification K) : Prop where
  quantities : other.quantities = spec.quantities
  rules : other.rules = spec.rules
  prebuilt : other.prebuilt = spec.prebuilt
  elsewhere : ∀ name, name ≠ f → other.formulas.get? name = spec.formulas.get? name
  before : ∃ term, spec.formulas.get? f = some term ∧ term.Spells e
  after : ∃ term, other.formulas.get? f = some term ∧ term.Spells e

namespace Respelled
variable {f : String} {e : Affine K} {spec other : Specification K}

theorem symm (respelled : Respelled f e spec other) : Respelled f e other spec :=
  ⟨respelled.quantities.symm, respelled.rules.symm, respelled.prebuilt.symm,
    fun name different => (respelled.elsewhere name different).symm, respelled.after, respelled.before⟩

theorem contains (respelled : Respelled f e spec other) (name : String) :
    other.formulas.contains name = spec.formulas.contains name := by
  unfold NameTable.contains
  by_cases here : name = f
  · obtain ⟨_, former, _⟩ := respelled.before
    obtain ⟨_, latter, _⟩ := respelled.after
    rw [here, former, latter]
    rfl
  · rw [respelled.elsewhere name here]

theorem doubleName? (respelled : Respelled f e spec other) :
    Compilation.doubleName? other = Compilation.doubleName? spec := by
  unfold Compilation.doubleName?
  rw [respelled.quantities]
  congr 1
  funext name
  exact respelled.contains name

theorem union (respelled : Respelled f e spec other) :
    (∀ name, name ≠ f →
      (other.quantities.union other.formulas).get? name = (spec.quantities.union spec.formulas).get? name) ∧
    ∃ term, (other.quantities.union other.formulas).get? f = some term ∧ term.Spells e := by
  constructor
  · intro name different
    rw [NameTable.get?_union, NameTable.get?_union, respelled.elsewhere name different, respelled.quantities]
  · obtain ⟨term, declared, spells⟩ := respelled.after
    exact ⟨term, by rw [NameTable.get?_union, declared, Option.some_or], spells⟩

end Respelled

namespace Plan
variable {f : String} {e : Affine K} {terms others : NameTable (Term K)}

theorem mentions_elsewhere (same : ∀ name, name ≠ f → others.get? name = terms.get? name)
    (value : ∃ term, others.get? f = some term ∧ term.Spells e) {name other : String}
    (mentions : Mentions others name other) : name ≠ f ∧ Mentions terms name other := by
  obtain ⟨elements, array, refers⟩ := mentions
  have different : name ≠ f := by
    rintro rfl
    obtain ⟨term, found, spells⟩ := value
    obtain rfl := Option.some.inj (found.symm.trans array)
    have none : referencesOfAll elements = [] := spells.references
    rw [none] at refers
    cases refers
  exact ⟨different, elements, (same name different).symm.trans array, refers⟩

/-- A way along references that does not end at the value does not meet it at all. -/
theorem transGen_elsewhere (same : ∀ name, name ≠ f → others.get? name = terms.get? name)
    (value : ∃ term, others.get? f = some term ∧ term.Spells e) {name other : String}
    (path : Relation.TransGen (Links others) name other) (different : other ≠ f) :
    Relation.TransGen (Links terms) name other := by
  have link {name other : String} (link : Links others name other) (different : other ≠ f) : Links terms name other := by
    obtain ⟨mentions, elements, array⟩ := link
    exact ⟨(mentions_elsewhere same value mentions).2, elements, (same other different).symm.trans array⟩
  induction path with
  | single last => exact .single (link last different)
  | tail _ last ih => exact .tail (ih (mentions_elsewhere same value last.1).1) (link last different)

theorem Orderable.respelled (orderable : Orderable terms)
    (same : ∀ name, name ≠ f → others.get? name = terms.get? name)
    (value : ∃ term, others.get? f = some term ∧ term.Spells e) : Orderable others where
  atoms name term found notArray := by
    by_cases here : name = f
    · obtain ⟨other, declared, spells⟩ := value
      rw [here, declared] at found
      obtain rfl := Option.some.inj found
      cases spells with
      | bare value => exact value.isAtom
      | bracketed _ => exact absurd rfl (notArray _)
    · exact orderable.atoms name term ((same name here).symm.trans found) notArray
  noSelf name own := orderable.noSelf name (mentions_elsewhere same value own).2
  noRing name ring := by
    obtain ⟨next, first, _⟩ := Relation.TransGen.head'_iff.mp ring
    exact orderable.noRing name (transGen_elsewhere same value ring (mentions_elsewhere same value first.1).1)

theorem Orderable.exists_plan (orderable : Orderable terms) : ∃ plan, Plan.order terms = .ok plan := by
  cases answer : Plan.order terms with
  | ok plan => exact ⟨plan, rfl⟩
  | error e => exact absurd (order_blames answer) (orderable.not_blames e)

end Plan

theorem Respelled.planOf {f : String} {e : Affine K} {spec other : Specification K} (respelled : Respelled f e spec other)
    {plan : Plan} (planned : Compilation.planOf spec = .ok plan) : ∃ plan, Compilation.planOf other = .ok plan := by
  obtain ⟨single, ordered⟩ := Compilation.planOf_ok_iff.mp planned
  obtain ⟨same, value⟩ := respelled.union
  obtain ⟨plan, again⟩ := ((Plan.orderable_of_order_ok ordered).respelled same value).exists_plan
  exact ⟨plan, Compilation.planOf_ok_iff.mpr ⟨respelled.doubleName?.trans single, again⟩⟩

theorem Respelled.registrable? {f : String} {e : Affine K} {spec other : Specification K}
    (respelled : Respelled f e spec other) : other.registrable? = spec.registrable? := by
  funext name
  rw [Specification.registrable?, Specification.registrable?, respelled.quantities]

theorem Respelled.registrable {f : String} {e : Affine K} {spec other : Specification K}
    (respelled : Respelled f e spec other) : other.registrable = spec.registrable := by
  rw [Specification.registrable, Specification.registrable, respelled.registrable?, respelled.quantities]

namespace Compilation
variable {spec other : Specification K} {options : BuildOptions} {r after : Recorder K} {c : Compilation K} {f : String}
  {e : Affine K}

theorem Compiled.planned (compiled : Compiled spec options r c after) : planOf spec = .ok c.plan :=
  planOf_ok_iff.mpr ⟨compiled.single, compiled.ordered⟩

theorem Compiled.registrable (compiled : Compiled spec options r c after) :
    spec.registrable = c.model.quantities.entries := by
  obtain ⟨_, run, _⟩ := compiled.built
  exact (registrable_of_plan compiled.planned run).1

theorem Compiled.registrable_names (compiled : Compiled spec options r c after) :
    spec.registrable.map (·.name) = spec.quantities.names := by
  rw [compiled.registrable, ← compiled.quantity_names, QuantityTable.names]

theorem Compiled.formula_eq_none (compiled : Compiled spec options r c after) {name : String}
    (undeclared : name ∉ spec.formulas.names) : c.model.formulas.get? name = none := by
  rw [NameTable.get?_eq_none_iff, compiled.formula_names]
  exact undeclared

/-- A value mentions quantities with smaller names than `name` only. -/
def Room (spec : Specification K) (name : String) (e : Affine K) : Prop :=
  ∀ id ∈ e.quantities, id < NameTable.rank spec.quantities.names name

theorem Compiled.room (compiled : Compiled spec options r c after) {name : String} {term : Term K}
    (declared : spec.formulas.get? name = some term) (value : term.IsValue e) : Room spec name e := by
  obtain ⟨bound, notQuantity⟩ := compiled.union_formula declared
  obtain ⟨front, back, split⟩ :=
    List.append_of_mem ((compiled.mem_plan_iff name).mpr (.inr (NameTable.mem_names_of_get? declared)))
  have atom := Plan.isNone_arrayOf? bound value.notArray
  have place := length_front_of_atom compiled.planned split atom compiled.registrable_names
  obtain ⟨_, run, _⟩ := compiled.built
  rw [split] at run
  obtain ⟨middle, _, early, late⟩ := run.append
  have size : middle.quantities.size = NameTable.rank spec.quantities.names name := by
    rw [QuantityTable.size, early.entries, ← place, filterMap_compiles early.compiles]
    rfl
  cases late with
  | cons first _ =>
    cases first with
    | quantity found _ _ _ =>
      rw [notQuantity] at found
      cases found
    | formula _ found here =>
      obtain rfl := Option.some.inj (declared.symm.trans found)
      intro id mentioned
      exact size ▸ ((Model.expressionOf_spells_iff (.bare value)).mp here).2 id mentioned

/-- In the plan of the other spelling, too, all quantities are built in front of an array. -/
theorem Compiled.quantities_front_of_array (compiled : Compiled spec options r c after)
    (respelled : Respelled f e spec other) {plan : Plan} (planned : planOf other = .ok plan) {front back : List String}
    {name : String} {elements : List (Term K)} (split : plan.names = front ++ name :: back)
    (array : (other.quantities.union other.formulas).get? name = some (.array elements)) {x : Model K}
    (partly : Model.Partly other c.model front x) : x.quantities = c.model.quantities := by
  have isArray : (Plan.arrayOf? (other.quantities.union other.formulas) name).isSome = true := by
    rw [Plan.arrayOf?_eq_some_iff.mpr array]
    rfl
  have all := registrable_front_of_array planned split isArray
  exact congrArg QuantityTable.mk
    (partly.quantities.trans (all.trans (respelled.registrable.trans compiled.registrable)))

theorem Compiled.size_front_of_atom (compiled : Compiled spec options r c after) (respelled : Respelled f e spec other)
    {plan : Plan} (planned : planOf other = .ok plan) {front back : List String} {name : String} {term : Term K}
    (split : plan.names = front ++ name :: back)
    (bound : (other.quantities.union other.formulas).get? name = some term)
    (notArray : ∀ elements, term ≠ .array elements) {x : Model K} (partly : Model.Partly other c.model front x) :
    x.quantities.size = NameTable.rank spec.quantities.names name := by
  have atom := Plan.isNone_arrayOf? bound notArray
  have every : other.registrable.map (·.name) = other.quantities.names := by
    rw [respelled.registrable, respelled.quantities]
    exact compiled.registrable_names
  rw [QuantityTable.size, partly.quantities, length_front_of_atom planned split atom every, respelled.quantities]

/-- What an array refers to is bound in front of it as in the finished layout. -/
theorem Compiled.agrees_front (compiled : Compiled spec options r c after) (respelled : Respelled f e spec other)
    {plan : Plan} (planned : planOf other = .ok plan) {front back : List String} {name : String}
    {elements : List (Term K)} (split : plan.names = front ++ name :: back)
    (array : (other.quantities.union other.formulas).get? name = some (.array elements)) {x : Model K}
    (partly : Model.Partly other c.model front x) (same : x.quantities = c.model.quantities) :
    Scope.Agrees (referencesOfAll elements) (c.model.scope spec.prebuilt) (x.scope other.prebuilt) where
  binding target refers := by
    have formulas : x.formulas.get? target = c.model.formulas.get? target := by
      by_cases early : target ∈ front
      · exact partly.formulas target early
      · rw [partly.nothingElse target early, compiled.formula_eq_none]
        intro declared
        rw [← NameTable.contains_iff, ← respelled.contains, NameTable.contains_iff] at declared
        refine early (Plan.mem_front_of_references (planOf_ok_iff.mp planned).2 split array refers ?_)
        exact (NameTable.mem_names_union _ _ _).mpr (.inr declared)
    simp only [Scope.binding?, Model.scope, same, formulas, respelled.prebuilt]
  size := Nat.le_of_eq (by rw [Model.scope, Model.scope, same])

/-- Every formula compiles to what the finished layout holds, at its place in the plan of the other spelling. -/
theorem Compiled.compiles_respelled (compiled : Compiled spec options r c after) (respelled : Respelled f e spec other)
    (room : ∀ term, other.formulas.get? f = some term → term.IsValue e → Room spec f e)
    {plan : Plan} (planned : planOf other = .ok plan) {front back : List String} {name : String}
    (split : plan.names = front ++ name :: back) {term : Term K} (declared : other.formulas.get? name = some term)
    {x : Model K} (partly : Model.Partly other c.model front x) :
    ∃ stored, c.model.formulas.get? name = some stored ∧
      Model.expressionOf name term (x.scope other.prebuilt) = .ok stored := by
  have bound : (other.quantities.union other.formulas).get? name = some term := by
    rw [NameTable.get?_union, declared, Option.some_or]
  by_cases here : name = f
  · subst here
    obtain ⟨former, declaredFormer, spellsFormer⟩ := respelled.before
    obtain ⟨latter, declaredLatter, spells⟩ := respelled.after
    obtain rfl := Option.some.inj (declared.symm.trans declaredLatter)
    obtain ⟨stored, found, finished⟩ := compiled.expressionOf declaredFormer
    obtain ⟨rfl, known⟩ := (Model.expressionOf_spells_iff spellsFormer).mp finished
    refine ⟨stored, found, (Model.expressionOf_spells_iff spells).mpr ⟨rfl, ?_⟩⟩
    cases spells with
    | bare value =>
      have size := compiled.size_front_of_atom respelled planned split bound value.notArray partly
      exact fun id mentioned => size ▸ room _ declared value id mentioned
    | bracketed value =>
      have all := compiled.quantities_front_of_array respelled planned split bound partly
      intro id mentioned
      change id < x.quantities.size
      rw [all]
      exact known id mentioned
  · have declaredFormer := (respelled.elsewhere name here).symm.trans declared
    obtain ⟨stored, found, finished⟩ := compiled.expressionOf declaredFormer
    refine ⟨stored, found, ?_⟩
    by_cases array : ∃ elements, term = .array elements
    · obtain ⟨elements, rfl⟩ := array
      have all := compiled.quantities_front_of_array respelled planned split bound partly
      exact Model.expressionOf_agrees (compiled.agrees_front respelled planned split bound partly all) finished
    · have notArray := not_exists.mp array
      have size := compiled.size_front_of_atom respelled planned split bound notArray partly
      have value := Model.isValue_of_expressionOf notArray finished
      refine (Model.expressionOf_spells_iff (.bare value)).mpr ⟨rfl, fun id mentioned => ?_⟩
      exact size ▸ compiled.room declaredFormer value id mentioned

/-- The whole of the other plan builds the layout again. -/
theorem Compiled.rebuilt (compiled : Compiled spec options r c after) (respelled : Respelled f e spec other)
    (room : ∀ term, other.formulas.get? f = some term → term.IsValue e → Room spec f e) {plan : Plan}
    (planned : planOf other = .ok plan) :
    ∃ x, Model.Compiles other plan.names {} x ∧ x.quantities = c.model.quantities ∧ x.formulas = c.model.formulas := by
  have unique := Plan.order_nodup (planOf_ok_iff.mp planned).2
  have quantities : ∀ name ∈ plan.names, ∀ term, other.quantities.get? name = some term →
      (∃ read, Model.initialOf name term = .ok read) ∧ c.model.formulas.get? name = none := by
    intro name _ term declared
    rw [respelled.quantities] at declared
    have quantity := NameTable.mem_names_of_get? declared
    obtain ⟨_, builds, _⟩ := compiled.built
    exact ⟨builds.initialOf ((compiled.mem_plan_iff name).mpr (.inl quantity)) declared,
      compiled.formula_eq_none (disjoint_of_single compiled.single quantity)⟩
  have formulas : ∀ front name back x, plan.names = front ++ name :: back → other.quantities.get? name = none →
      Model.Partly other c.model front x → ∃ term stored, other.formulas.get? name = some term ∧
        c.model.formulas.get? name = some stored ∧
        Model.expressionOf name term (x.scope other.prebuilt) = .ok stored := by
    intro front name back x split undeclared partly
    have listed : name ∈ plan.names := split ▸ List.mem_append_right _ List.mem_cons_self
    have formula : name ∈ other.formulas.names :=
      ((mem_planOf_iff planned name).mp listed).resolve_left ((NameTable.get?_eq_none_iff _ _).mp undeclared)
    obtain ⟨term, declared⟩ := (NameTable.mem_names_iff _ _).mp formula
    obtain ⟨stored, found, compiles⟩ := compiled.compiles_respelled respelled room planned split declared partly
    exact ⟨term, stored, declared, found, compiles⟩
  obtain ⟨x, run, whole⟩ := Model.rebuild unique quantities formulas
  refine ⟨x, run, congrArg QuantityTable.mk ?_, NameTable.eq_of_get? fun name => ?_⟩
  · rw [whole.quantities, filterMap_plan planned, respelled.registrable, compiled.registrable]
  · by_cases listed : name ∈ plan.names
    · exact whole.formulas name listed
    · rw [whole.nothingElse name listed, compiled.formula_eq_none]
      intro declared
      rw [← NameTable.contains_iff, ← respelled.contains, NameTable.contains_iff] at declared
      exact listed ((mem_planOf_iff planned name).mpr (.inr declared))

theorem Compiled.respelled (compiled : Compiled spec options r c after) (respelled : Respelled f e spec other)
    (room : ∀ term, other.formulas.get? f = some term → term.IsValue e → Room spec f e) :
    ∃ d finish, compile other options r = (.ok d, finish) ∧ d.model.quantities = c.model.quantities ∧
      d.model.formulas = c.model.formulas ∧ d.rules = c.rules := by
  obtain ⟨plan, planned⟩ := respelled.planOf compiled.planned
  obtain ⟨x, run, quantities, formulas⟩ := compiled.rebuilt respelled room planned
  have rules : Rule.compileAll (x.scope other.prebuilt) other.rules = .ok c.rules := by
    rw [Model.scope, quantities, formulas, respelled.prebuilt, respelled.rules]
    exact compiled.rules
  have accepts : r.Accepts options.editStrength 0 (plan.names.filterMap (Model.quantity? other)) := by
    obtain ⟨_, builds, _⟩ := compiled.built
    rw [← filterMap_compiles run, filterMap_plan planned, respelled.registrable]
    exact (registrable_of_plan compiled.planned builds).2.2.accepted
  obtain ⟨finish, accepted⟩ := compile_of_compiles options planned run rules accepts
  exact ⟨_, finish, accepted, quantities, formulas, rfl⟩

end Compilation

theorem respelled_define {spec : Specification K} {f : String} {term : Term K} {e : Affine K}
    (declared : spec.formulas.get? f = some term) (value : term.IsValue e) :
    Respelled f e spec (spec.define f (.array [term])) where
  quantities := rfl
  rules := rfl
  prebuilt := rfl
  elsewhere _ different := NameTable.get?_insert_ne _ _ different
  before := ⟨term, declared, .bare value⟩
  after := ⟨.array [term], NameTable.get?_insert_self _ _ _, .bracketed value⟩

namespace Compilation
variable {spec : Specification K} {f : String} {term : Term K} {e : Affine K}

/-- A bare value is accepted exactly where the array of it is and all its quantities come before the formula. Where both
are, they give the same layout and the same rules. -/
theorem bare_iff_bracketed (declared : spec.formulas.get? f = some term) (value : term.IsValue e) (options : BuildOptions)
    (r : Recorder K) :
    ((∃ c after, compile spec options r = (.ok c, after)) ↔
      (∃ d finish, compile (spec.define f (.array [term])) options r = (.ok d, finish)) ∧
        ∀ id ∈ e.quantities, id < NameTable.rank spec.quantities.names f) ∧
    ∀ c after d finish, compile spec options r = (.ok c, after) →
      compile (spec.define f (.array [term])) options r = (.ok d, finish) →
        d.model.quantities = c.model.quantities ∧ d.model.formulas = c.model.formulas ∧ d.rules = c.rules := by
  have respelled := respelled_define declared value
  have bracketed (c : Compilation K) (after : Recorder K) (accepted : compile spec options r = (.ok c, after)) :
      ∃ d finish, compile (spec.define f (.array [term])) options r = (.ok d, finish) ∧
        d.model.quantities = c.model.quantities ∧ d.model.formulas = c.model.formulas ∧ d.rules = c.rules := by
    refine (compile_ok accepted).respelled respelled fun other found bare => ?_
    obtain rfl := Option.some.inj ((NameTable.get?_insert_self _ _ _).symm.trans found)
    exact absurd rfl (bare.notArray _)
  refine ⟨⟨?_, ?_⟩, ?_⟩
  · rintro ⟨c, after, accepted⟩
    obtain ⟨d, finish, alsoAccepted, _⟩ := bracketed c after accepted
    exact ⟨⟨d, finish, alsoAccepted⟩, (compile_ok accepted).room declared value⟩
  · rintro ⟨⟨d, finish, accepted⟩, room⟩
    obtain ⟨c, after, alsoAccepted, _⟩ := (compile_ok accepted).respelled respelled.symm fun _ _ _ => room
    exact ⟨c, after, alsoAccepted⟩
  · intro c after d finish accepted alsoAccepted
    obtain ⟨other, stop, again, same⟩ := bracketed c after accepted
    rw [alsoAccepted] at again
    cases again
    exact same

/-- A layout of one quantity, `b`, and a formula that is this quantity. -/
def beside (K : Type) [Scalar K] (name : String) : Specification K :=
  ((({} : Specification K).declare "b" (.number 0)).define name (.built (.quantity 0))).require
    (.array [.reference name, .token (.comparator .equal), .reference "b"])

/-- The same with the formula as an array. -/
def besideBracketed (K : Type) [Scalar K] (name : String) : Specification K :=
  (beside K name).define name (.array [.built (.quantity 0)])

theorem exists_of_isOk {spec : Specification K} {options : BuildOptions} {r : Recorder K}
    (ok : (compile spec options r).1.isOk = true) : ∃ c after, compile spec options r = (.ok c, after) := by
  cases answer : compile spec options r with
  | mk reply after =>
    rw [answer] at ok
    cases reply with
    | ok c => exact ⟨c, after, rfl⟩
    | error e => cases ok

/-- As `a` the value comes too early for `b`, unless it is bracketed, and as `c` it does not. -/
theorem bare_iff_bracketed_beside :
    ((beside Rat "a").formulas.get? "a" = some (.built (.quantity 0)) ∧
      Term.IsValue (.built (.quantity 0)) (.quantity 0 : Affine Rat) ∧
      (∃ d finish, compile (besideBracketed Rat "a") {} ({} : Recorder Rat) = (.ok d, finish)) ∧
      ¬ ∃ c after, compile (beside Rat "a") {} ({} : Recorder Rat) = (.ok c, after)) ∧
    (beside Rat "c").formulas.get? "c" = some (.built (.quantity 0)) ∧
    ∃ c after d finish, compile (beside Rat "c") {} ({} : Recorder Rat) = (.ok c, after) ∧
      compile (besideBracketed Rat "c") {} ({} : Recorder Rat) = (.ok d, finish) ∧
      d.model.formulas = c.model.formulas ∧ d.rules = c.rules := by
  have first : (beside Rat "a").formulas.get? "a" = some (.built (.quantity 0)) := by cbv
  have second : (beside Rat "c").formulas.get? "c" = some (.built (.quantity 0)) := by cbv
  have early : ¬ ∀ id ∈ (Affine.quantity 0 : Affine Rat).quantities,
      id < NameTable.rank (beside Rat "a").quantities.names "a" := by decide +kernel
  have late : ∀ id ∈ (Affine.quantity 0 : Affine Rat).quantities,
      id < NameTable.rank (beside Rat "c").quantities.names "c" := by decide +kernel
  obtain ⟨bareFirst, _⟩ := bare_iff_bracketed first (.quantity 0) {} ({} : Recorder Rat)
  obtain ⟨bareSecond, same⟩ := bare_iff_bracketed second (.quantity 0) {} ({} : Recorder Rat)
  have bracketed : (compile (besideBracketed Rat "c") {} ({} : Recorder Rat)).1.isOk = true := by cbv
  obtain ⟨d, finish, alsoAccepted⟩ := exists_of_isOk bracketed
  obtain ⟨c, after, accepted⟩ := bareSecond.mpr ⟨⟨d, finish, alsoAccepted⟩, late⟩
  obtain ⟨_, formulas, rules⟩ := same c after d finish accepted alsoAccepted
  exact ⟨⟨first, .quantity 0, exists_of_isOk (by cbv), fun accepted => early (bareFirst.mp accepted).2⟩, second, c, after,
    d, finish, accepted, alsoAccepted, formulas, rules⟩

/-- So the two spellings are not accepted alike: it depends on the names around the formula. -/
theorem bare_value_misplaced :
    ¬ ∀ (spec : Specification Float) (f : String) (term : Term Float) (e : Affine Float),
      spec.formulas.get? f = some term → term.IsValue e →
        ((∃ c after, compile spec {} ({} : Recorder Float) = (.ok c, after)) ↔
          ∃ d finish, compile (spec.define f (.array [term])) {} ({} : Recorder Float) = (.ok d, finish)) := by
  intro everywhere
  have bracketed : (compile (besideBracketed Float "a") {} ({} : Recorder Float)).1.isOk = true := by decide +kernel
  have bare : (compile (beside Float "a") {} ({} : Recorder Float)).1.isOk = false := by decide +kernel
  have declared : (beside Float "a").formulas.get? "a" = some (.built (.quantity 0)) := NameTable.get?_insert_self _ _ _
  obtain ⟨c, after, accepted⟩ := (everywhere _ _ _ _ declared (.quantity 0)).mpr (exists_of_isOk bracketed)
  rw [accepted] at bare
  cases bare

end Compilation
end ReactiveLayout
