import ReactiveLayout.Proofs.Upkeep

/-! The two readings of a name. A reference is looked up in three tables, and there a quantity hides an expression of its
name that existed before the build; the value of a formula is looked up in two of them and does not notice. So for every
name that is no quantity both readings are one, and for a quantity the value is that of the hidden expression. -/
namespace ReactiveLayout.Layout
variable {K σ : Type} [Scalar K]

def scope (s : Layout K σ) : Scope K := ⟨s.quantities, s.formulas, s.prebuilt⟩

/-- With references resolved in this scope, the declared formulas and rules come to those of the layout. -/
structure Interprets (spec : Specification K) (scope : Scope K) (s : Layout K σ) : Prop where
  formulas : ∀ name term, spec.formulas.get? name = some term →
    ∃ e, s.formulas.get? name = some e ∧ Model.expressionOf name term scope = .ok e
  rules : Rule.compileAll scope spec.rules = .ok s.rules

/-- The value that can be asked for under a name, if there is one, is the present value of what a reference to the name
stands for. -/
def ReadsAs (s : Layout K σ) (scope : Scope K) (name : String) : Prop :=
  ∀ value, s.formulaValue? name = some value →
    ∃ e, scope.lookup name = .ok e ∧ value = e.evaluate s.quantities.valueAt

/-- The names of a layout and what it has built under them. -/
structure SameNames (s t : Layout K σ) : Prop where
  quantities : s.quantities.names = t.quantities.names
  formulas : s.formulas = t.formulas
  prebuilt : s.prebuilt = t.prebuilt

section
variable {s t : Layout K σ} {name : String}

omit [Scalar K] in
theorem SameNames.id?_eq (same : SameNames s t) (name : String) : s.quantities.id? name = t.quantities.id? name := by
  rw [QuantityTable.id?_eq_idxOf?, QuantityTable.id?_eq_idxOf?, same.quantities]

theorem SameNames.formulaValue?_of_open (same : SameNames s t) (free : t.quantities.id? name = none) :
    s.formulaValue? name = (t.scope.binding? name).map fun e => e.evaluate s.quantities.valueAt := by
  simp only [formulaValue?, same.formulas, same.prebuilt, Scope.binding?, scope, free]
  rfl

/-- The name of a quantity is no formula, so nothing but a hidden expression is found under it. -/
theorem SameNames.formulaValue?_of_quantity (same : SameNames s t) (noFormula : t.formulas.get? name = none) :
    s.formulaValue? name = (t.prebuilt.get? name).map fun e => e.evaluate s.quantities.valueAt := by
  rw [formulaValue?, same.formulas, same.prebuilt, noFormula]
  rfl

theorem lookup_of_quantity {id : QuantityId} (numbered : t.quantities.id? name = some id) :
    t.scope.lookup name = .ok (.quantity id) := by
  simp only [Scope.lookup, Scope.binding?, scope, numbered]

theorem SameNames.readsAs_of_open (same : SameNames s t) (free : t.quantities.id? name = none) :
    s.ReadsAs t.scope name := by
  intro value read
  rw [same.formulaValue?_of_open free] at read
  obtain ⟨e, bound, rfl⟩ := Option.map_eq_some_iff.mp read
  exact ⟨e, Scope.lookup_ok_iff.mpr bound, rfl⟩

/-- A quantity that hides an expression reads as what it refers to only while the two happen to have one value. -/
theorem SameNames.readsAs_iff_of_quantity (same : SameNames s t) {id : QuantityId}
    (numbered : t.quantities.id? name = some id) (noFormula : t.formulas.get? name = none) :
    s.ReadsAs t.scope name ↔ ∀ e, t.prebuilt.get? name = some e →
      e.evaluate s.quantities.valueAt = (Affine.quantity id).evaluate s.quantities.valueAt := by
  rw [ReadsAs, same.formulaValue?_of_quantity noFormula, lookup_of_quantity numbered]
  constructor
  · intro reads e hidden
    obtain ⟨_, found, equal⟩ := reads (e.evaluate s.quantities.valueAt) (by rw [hidden, Option.map_some])
    cases found
    exact equal
  · intro equal value read
    obtain ⟨e, hidden, rfl⟩ := Option.map_eq_some_iff.mp read
    exact ⟨_, rfl, equal e hidden⟩

end

variable [Solver σ K]

theorem sameNames_performAll (s : Layout K σ) (actions : List (Action K σ)) : SameNames (s.performAll actions) s := by
  refine performAll_invariant (P := fun t => SameNames t s) ?_ ?_ ⟨rfl, rfl, rfl⟩ actions ?_
  · intro t pointer same
    exact ⟨(Loop.tick_names pointer).trans same.quantities, same.formulas, same.prebuilt⟩
  · intro t _ _ same _
    exact ⟨same.quantities, same.formulas, same.prebuilt⟩
  · intro t _ _ same
    exact ⟨same.quantities, same.formulas, same.prebuilt⟩

variable {spec : Specification K} {settings : Settings K} {solver : σ} {built : Layout K σ}

theorem build_interprets (accepted : build spec settings solver = .ok built) : Interprets spec built.scope built := by
  obtain ⟨_, c, after, compiles, rfl⟩ := build_ok_iff.mp accepted
  have compiled := Compilation.compile_ok compiles
  have same : (started settings c after).scope = c.model.scope spec.prebuilt := by
    rw [← compiled.prebuilt]
    rfl
  rw [same]
  exact ⟨fun _ _ declared => compiled.expressionOf declared, compiled.rules⟩

theorem build_prebuilt (accepted : build spec settings solver = .ok built) : built.prebuilt = spec.prebuilt := by
  obtain ⟨_, c, after, compiles, rfl⟩ := build_ok_iff.mp accepted
  exact (Compilation.compile_ok compiles).prebuilt

theorem build_formula_eq_none (accepted : build spec settings solver = .ok built) {name : String} {id : QuantityId}
    (numbered : built.quantities.id? name = some id) : built.formulas.get? name = none := by
  obtain ⟨_, c, after, compiles, rfl⟩ := build_ok_iff.mp accepted
  have compiled := Compilation.compile_ok compiles
  have declared : name ∈ spec.quantities.names := by
    by_contra undeclared
    rw [← compiled.quantity_names, ← QuantityTable.id?_eq_none_iff] at undeclared
    rw [started, undeclared] at numbered
    cases numbered
  rw [NameTable.get?_eq_none_iff, started, compiled.formula_names]
  exact Compilation.disjoint_of_single compiled.single declared

/-- Whatever happened to a layout: a name that is no quantity has the value of what it refers to in the rules and in the
formulas, and the name of a quantity has the value of the expression that the quantity hides there, if any. So the two
readings of a name differ exactly when it hides an expression with another value. -/
theorem readsAs_iff_unhidden (accepted : build spec settings solver = .ok built) (actions : List (Action K σ)) :
    let s := built.performAll actions
    Interprets spec built.scope built ∧ ∀ name,
      (s.quantities.id? name = none →
        s.formulaValue? name = (built.scope.binding? name).map fun e => e.evaluate s.quantities.valueAt) ∧
      (∀ id, s.quantities.id? name = some id → built.scope.lookup name = .ok (.quantity id) ∧
        s.formulaValue? name = (spec.prebuilt.get? name).map fun e => e.evaluate s.quantities.valueAt) ∧
      (s.ReadsAs built.scope name ↔ ∀ id e, s.quantities.id? name = some id → spec.prebuilt.get? name = some e →
        e.evaluate s.quantities.valueAt = (Affine.quantity id).evaluate s.quantities.valueAt) := by
  intro s
  have same : SameNames s built := sameNames_performAll built actions
  refine ⟨build_interprets accepted, fun name => ?_⟩
  rw [same.id?_eq, ← build_prebuilt accepted]
  refine ⟨same.formulaValue?_of_open, fun id numbered => ?_, ?_⟩
  · exact ⟨lookup_of_quantity numbered, same.formulaValue?_of_quantity (build_formula_eq_none accepted numbered)⟩
  · cases numbered : built.quantities.id? name with
    | none =>
      refine iff_of_true (same.readsAs_of_open numbered) fun id e taken => ?_
      cases taken
    | some id =>
      rw [same.readsAs_iff_of_quantity numbered (build_formula_eq_none accepted numbered)]
      constructor
      · intro equal other e taken
        cases taken
        exact equal e
      · intro equal e
        exact equal id e rfl

def masked : Specification Float :=
  let spec : Specification Float := {}
  spec
    |>.declare "width" (.number 1)
    |>.assume "width" (.constant 5)
    |>.define "copy" (.array [.reference "width"])

def showsWidth (value : Float) (s : Layout Float (Recorder Float)) : Bool :=
  s.quantities.id? "width" == some 0 && decide ((Affine.quantity 0).evaluate s.quantities.valueAt = value)

theorem masked_builds : ∃ built, build masked .standard ({} : Recorder Float) = .ok built ∧
    showsWidth 1 built = true ∧ showsWidth 5 (built.follow [.suggest "width" 5, .tick ⟨0, 0⟩]) = true := by
  have checked : (build masked .standard ({} : Recorder Float)).toOption.any (fun built =>
      showsWidth 1 built && showsWidth 5 (built.follow [.suggest "width" 5, .tick ⟨0, 0⟩])) = true := by decide +kernel
  cases accepted : build masked .standard ({} : Recorder Float) with
  | error e =>
    rw [accepted] at checked
    cases checked
  | ok built =>
    rw [accepted] at checked
    exact ⟨built, rfl, Bool.and_eq_true_iff.mp checked⟩

theorem masked_prebuilt : masked.prebuilt.get? "width" = some (.constant 5) := NameTable.get?_insert_self _ _ _

/-- Asked for `width`, a new layout shows the hidden expression; once the quantity has its value, nothing can be told. -/
theorem masked_readsAs : ∃ built, build masked .standard ({} : Recorder Float) = .ok built ∧
    ¬ built.ReadsAs built.scope "width" ∧
      (built.follow [.suggest "width" 5, .tick ⟨0, 0⟩]).ReadsAs built.scope "width" := by
  obtain ⟨built, accepted, first, later⟩ := masked_builds
  obtain ⟨numbered, one⟩ := Bool.and_eq_true_iff.mp first
  obtain ⟨again, five⟩ := Bool.and_eq_true_iff.mp later
  obtain ⟨_, early⟩ := readsAs_iff_unhidden accepted []
  obtain ⟨_, late⟩ := readsAs_iff_unhidden accepted ([.suggest "width" 5, .tick ⟨0, 0⟩].map .command)
  refine ⟨built, accepted, fun reads => ?_, (late "width").2.2.mpr fun id e known hidden => ?_⟩
  · have equal := (early "width").2.2.mp reads 0 (.constant 5) (beq_iff_eq.mp numbered) masked_prebuilt
    have same : (5 : Float) = 1 := equal.trans (of_decide_eq_true one)
    revert same
    decide +kernel
  · obtain rfl := Option.some.inj ((beq_iff_eq.mp again).symm.trans known)
    obtain rfl := Option.some.inj (masked_prebuilt.symm.trans hidden)
    exact (of_decide_eq_true five).symm

/-- Not every name reads as what it refers to: `width` is the quantity in the formula `copy`, and asked for it is the
expression. -/
theorem hidden_expression_shown :
    ¬ ∀ (spec : Specification Float) (settings : Settings Float) (solver : Recorder Float)
      (built : Layout Float (Recorder Float)), build spec settings solver = .ok built →
        ∀ actions name, (built.performAll actions).ReadsAs built.scope name := by
  intro everywhere
  obtain ⟨built, accepted, first, _⟩ := masked_builds
  obtain ⟨numbered, one⟩ := Bool.and_eq_true_iff.mp first
  have quantity : built.quantities.id? "width" = some 0 := beq_iff_eq.mp numbered
  have same : SameNames built built := ⟨rfl, rfl, rfl⟩
  have reads : built.ReadsAs built.scope "width" := everywhere masked .standard {} built accepted [] "width"
  have equal := (same.readsAs_iff_of_quantity quantity (build_formula_eq_none accepted quantity)).mp reads (.constant 5)
    (build_prebuilt accepted ▸ masked_prebuilt)
  have different : (5 : Float) = 1 := equal.trans (of_decide_eq_true one)
  revert different
  decide +kernel

end ReactiveLayout.Layout
