import ReactiveLayout.Proofs.BuildCalls
import ReactiveLayout.Proofs.Insertion
import ReactiveLayout.Proofs.Numbering
import ReactiveLayout.Proofs.Renumbering

/-! A quantity that nothing refers to. It takes its place among the quantities, so the numbers from its own on move up
by one; apart from that every formula and every rule is what it was. The build without it is followed step by step, in
front of the new name with the same numbers and behind it with the numbers moved up. -/
namespace ReactiveLayout
variable {K : Type}

/-- The numbers with a new one among them: those from its own on move up. -/
def skip (rank id : Nat) : Nat := if id < rank then id else id + 1

theorem skip_strictMono (rank : Nat) : StrictMono (skip rank) := by
  intro first second below
  unfold skip
  split <;> split <;> omega

variable [Scalar K]

namespace Model
variable {f : QuantityId → QuantityId} {n : String} {m final other : Model K}

/-- The second model is the first under other numbers, as far as `n` is not looked at. -/
structure Renumbered (f : QuantityId → QuantityId) (n : String) (m other : Model K) : Prop where
  numbers : ∀ name, name ≠ n → other.quantities.id? name = (m.quantities.id? name).map f
  formulas : ∀ name, other.formulas.get? name = (m.formulas.get? name).map (Affine.renumber f)

theorem Renumbered.scope (renumbered : Renumbered f n m other) (mono : StrictMono f) {prebuilt : NameTable (Affine K)}
    (constant : ∀ name e, prebuilt.get? name = some e → e.quantities = []) {names : List String} (absent : n ∉ names) :
    Scope.Renumbers f names (m.scope prebuilt) (other.scope prebuilt) := by
  intro name member
  have different : name ≠ n := fun same => absent (same ▸ member)
  simp only [Scope.binding?, Model.scope, renumbered.numbers name different, renumbered.formulas name]
  cases m.quantities.id? name with
  | some id => exact congrArg some (Affine.quantity_renumber mono id).symm
  | none =>
    cases m.formulas.get? name with
    | some e => rfl
    | none =>
      cases stored : prebuilt.get? name with
      | none => rfl
      | some e => exact congrArg some (Affine.renumber_of_constant (constant name e stored)).symm

omit [Scalar K] in
theorem Renumbered.quantity (renumbered : Renumbered f n m other) {name : String} (initial : K)
    (producers others : List (QuantityId × Producer K)) (fresh : m.quantities.id? name = none)
    (unknown : other.quantities.id? name = none) (next : f m.quantities.size = other.quantities.size) :
    Renumbered f n { m with quantities := ⟨m.quantities.entries ++ [⟨name, initial⟩]⟩, producers }
      { other with quantities := ⟨other.quantities.entries ++ [⟨name, initial⟩]⟩, producers := others } where
  numbers looked apart := by
    by_cases here : looked = name
    · subst here
      rw [QuantityTable.id?_append_self _ fresh, QuantityTable.id?_append_self _ unknown, Option.map_some, next]
    · rw [QuantityTable.id?_append_ne _ _ here, QuantityTable.id?_append_ne _ _ here, renumbered.numbers looked apart]
  formulas := renumbered.formulas

omit [Scalar K] in
theorem Renumbered.formula (renumbered : Renumbered f n m other) (name : String) (e : Affine K) :
    Renumbered f n { m with formulas := m.formulas.insert name e }
      { other with formulas := other.formulas.insert name (e.renumber f) } where
  numbers := renumbered.numbers
  formulas looked := by
    rw [NameTable.get?_insert, NameTable.get?_insert, renumbered.formulas]
    split <;> rfl

omit [Scalar K] in
theorem Renumbered.insert (renumbered : Renumbered f n m other) (initial : K) (producers : List (QuantityId × Producer K)) :
    Renumbered f n m { other with quantities := ⟨other.quantities.entries ++ [⟨n, initial⟩]⟩, producers } where
  numbers looked apart := by rw [QuantityTable.id?_append_ne _ _ apart, renumbered.numbers looked apart]
  formulas := renumbered.formulas

theorem initialOf_of_isQuantity {term : Term K} (quantity : term.IsQuantity) (name : String) :
    ∃ producer, initialOf name term = .ok (term.initial, producer) := by
  cases quantity with
  | number finite | descriptor finite =>
    exact ⟨none, by simp only [initialOf, Term.classify, Term.kind?, finite, if_true, Term.initial]⟩
  | producer source => exact ⟨some source, rfl⟩

variable {spec : Specification K}

theorem Compiles.size_le {names : List String} (run : Compiles spec names m final) :
    m.quantities.size ≤ final.quantities.size := by
  induction run with
  | nil => exact Nat.le_refl _
  | quantity _ _ _ _ ih =>
    refine Nat.le_trans ?_ ih
    simp [QuantityTable.size]
  | formula _ _ _ _ ih => exact ih

theorem Compiles.id?_of_notMem {names : List String} (run : Compiles spec names m final) {name : String}
    (absent : name ∉ names) : final.quantities.id? name = m.quantities.id? name := by
  induction run with
  | nil => rfl
  | quantity _ _ _ _ ih =>
    obtain ⟨different, absent⟩ := List.ne_and_not_mem_of_not_mem_cons absent
    rw [ih absent, QuantityTable.id?_append_ne _ _ different]
  | formula _ _ _ _ ih => exact ih (List.ne_and_not_mem_of_not_mem_cons absent).2

theorem Compiles.trans {front back : List String} {middle : Model K} (first : Compiles spec front m middle)
    (second : Compiles spec back middle final) : Compiles spec (front ++ back) m final := by
  induction first with
  | nil => exact second
  | quantity declared read fresh _ ih => exact .quantity declared read fresh (ih second)
  | formula undeclared declared compiled _ ih => exact .formula undeclared declared compiled (ih second)

theorem notMem_references_of_expressionOf {name : String} {term : Term K} {scope : Scope K} {e : Affine K}
    (unreferenced : ¬ spec.Refers n) (declared : spec.formulas.get? name = some term)
    (compiled : expressionOf name term scope = .ok e) : n ∉ term.references := by
  cases term with
  | array elements =>
    rw [Term.references]
    exact fun refers => unreferenced (.formula declared refers)
  | reference target => cases compiled
  | number | descriptor | token | producer | built => exact List.not_mem_nil

/-- A run of names other than `n` goes the same way beside `n`, with all numbers that it gives moved by `k`. -/
theorem Compiles.renumbered (mono : StrictMono f) (raw : spec.isRaw = true)
    (constant : ∀ name e, spec.prebuilt.get? name = some e → e.quantities = []) (unreferenced : ¬ spec.Refers n)
    (term : Term K) {names : List String} (run : Compiles spec names m final) (absent : n ∉ names) {k : Nat}
    (renumbered : Renumbered f n m other) (size : other.quantities.size = m.quantities.size + k)
    (shifted : ∀ i : Nat, m.quantities.size ≤ i → i < final.quantities.size → f i = i + k) :
    ∃ last, Compiles (spec.declare n term) names other last ∧ Renumbered f n final last ∧
      last.quantities.size = final.quantities.size + k := by
  -- Both runs take the names in the same order, so along the way their next numbers stay k apart.
  induction run generalizing other with
  | nil => exact ⟨other, .nil, renumbered, size⟩
  | @quantity name rest m final _ initial producer declared read fresh later ih =>
    obtain ⟨different, absent⟩ := List.ne_and_not_mem_of_not_mem_cons absent
    have unknown : other.quantities.id? name = none := by
      rw [renumbered.numbers name different.symm, fresh]
      rfl
    have grown : m.quantities.size + 1 ≤ final.quantities.size := by
      simpa [QuantityTable.size] using later.size_le
    have next : f m.quantities.size = other.quantities.size := by
      rw [shifted _ (Nat.le_refl _) grown, size]
    obtain ⟨last, run, renumbered, size⟩ := ih absent
      (renumbered.quantity initial _ (other.producers ++ (producer.map fun p => (other.quantities.size, p)).toList) fresh
        unknown next)
      (by simp only [QuantityTable.size, List.length_append, List.length_singleton] at size ⊢; omega)
      fun i above below => shifted i (by
        simp only [QuantityTable.size, List.length_append, List.length_singleton] at above ⊢; omega) below
    refine ⟨last, .quantity ?_ read unknown run, renumbered, size⟩
    exact (NameTable.get?_insert_ne _ _ different.symm).trans declared
  | @formula name rest m final _ e undeclared declared compiled later ih =>
    obtain ⟨different, absent⟩ := List.ne_and_not_mem_of_not_mem_cons absent
    have renumbers := renumbered.scope mono constant (notMem_references_of_expressionOf unreferenced declared compiled)
    have again := expressionOf_renumber mono (Specification.isRaw_formula raw declared) renumbers compiled
    obtain ⟨last, run, renumbered, size⟩ := ih absent (renumbered.formula name e) size shifted
    refine ⟨last, .formula ?_ declared again run, renumbered, size⟩
    exact (NameTable.get?_insert_ne _ _ different.symm).trans undeclared

/-- A run with `n` put in among its names, which gives `n` the number that the next quantity had. -/
theorem Compiles.insert {term : Term K} (quantity : term.IsQuantity) (raw : spec.isRaw = true)
    (constant : ∀ name e, spec.prebuilt.get? name = some e → e.quantities = []) (unreferenced : ¬ spec.Refers n)
    {front back : List String} {middle : Model K} (first : Compiles spec front {} middle)
    (second : Compiles spec back middle final) (notBefore : n ∉ front) (notBehind : n ∉ back) :
    ∃ last, Compiles (spec.declare n term) (front ++ n :: back) {} last ∧
      Renumbered (skip middle.quantities.size) n final last ∧
      last.quantities.id? n = some middle.quantities.size := by
  have mono := skip_strictMono middle.quantities.size
  have start : Renumbered (skip middle.quantities.size) n ({} : Model K) {} := ⟨fun _ _ => rfl, fun _ => rfl⟩
  -- In front of the new name no number moves, and behind it each moves by one.
  obtain ⟨before, early, renumbered, size⟩ := first.renumbered (k := 0) mono raw constant unreferenced term notBefore
    start rfl fun i _ below => if_pos below
  have unknown : before.quantities.id? n = none := early.id?_of_notMem notBefore
  obtain ⟨producer, read⟩ := initialOf_of_isQuantity quantity n
  obtain ⟨last, late, renumbered, _⟩ := second.renumbered (k := 1) mono raw constant unreferenced term notBehind
    (renumbered.insert term.initial (before.producers ++ (producer.map fun p => (before.quantities.size, p)).toList))
    (by simpa [QuantityTable.size] using size) fun i above _ => if_neg (Nat.not_lt.mpr above)
  refine ⟨last, early.trans (.quantity (NameTable.get?_insert_self _ _ _) read unknown late), renumbered, ?_⟩
  rw [late.id?_of_notMem notBehind, QuantityTable.id?_append_self _ unknown, size]
  rfl

/-- A recorder that is to register at required strength refuses the first quantity. -/
theorem Compiles.refused {names : List String} {quantities : NameTable (Term K)} (run : Compiles spec names m final)
    (unique : names.Nodup) (same : ∀ name ∈ names, quantities.get? name = spec.quantities.get? name)
    (some : ∃ name ∈ names, spec.quantities.get? name ≠ none) (r : Recorder K) :
    ∃ after, addNames .required quantities spec.formulas spec.prebuilt names m r =
      (.error (.solver (.requiredAdjustable m.quantities.size)), after) := by
  induction run generalizing quantities with
  | nil =>
    obtain ⟨name, member, _⟩ := some
    cases member
  | @quantity name rest m final term initial producer declared read fresh later ih =>
    have inserted : m.quantities.insert? name initial =
        .some (m.quantities.size, ⟨m.quantities.entries ++ [⟨name, initial⟩]⟩) :=
      QuantityTable.insert?_eq_some_iff.mpr ⟨fresh, rfl, rfl⟩
    have refused : Solver.register m.quantities.size initial .required r =
        (.error (.requiredAdjustable m.quantities.size), r.log (.register m.quantities.size initial .required)) := rfl
    simp only [addNames, addName, same name List.mem_cons_self, declared, addQuantity, read, inserted, refused]
    exact ⟨_, rfl⟩
  | @formula name rest m final _ e undeclared declared compiled later ih =>
    obtain ⟨absent, unique⟩ := List.nodup_cons.mp unique
    have built : addName .required quantities spec.formulas spec.prebuilt name m r =
        (.ok { m with formulas := m.formulas.insert name e }, r) :=
      addName_of_adds (same name List.mem_cons_self) (.formula undeclared declared compiled)
    rw [addNames, built]
    refine ih unique (fun next member => ?_) ?_
    · have different : next ≠ name := fun equal => absent (equal ▸ member)
      rw [NameTable.get?_erase_ne _ different]
      exact same next (List.mem_cons_of_mem _ member)
    · obtain ⟨next, member, quantity⟩ := some
      rcases List.mem_cons.mp member with rfl | later
      · exact absurd undeclared quantity
      · exact ⟨next, later, quantity⟩

end Model

namespace Recorder

omit [Scalar K] in
theorem accepts_fresh {strength : Strength} (soft : strength ≠ .required) (first : Nat) (quantities : List (Quantity K)) :
    ({} : Recorder K).Accepts strength first quantities := by
  intro i q _
  simp [register, soft]

end Recorder

namespace Compilation

theorem compile_of_compiles {spec : Specification K} (options : BuildOptions) {r : Recorder K} {plan : Plan} {m : Model K}
    {rules : List (Rule K)} (planned : planOf spec = .ok plan) (run : Model.Compiles spec plan.names {} m)
    (compiled : Rule.compileAll (m.scope spec.prebuilt) spec.rules = .ok rules)
    (accepts : r.Accepts options.editStrength 0 (plan.names.filterMap (Model.quantity? spec))) :
    ∃ after, compile spec options r = (.ok ⟨m, rules, plan, spec.prebuilt⟩, after) := by
  have unique : plan.names.Nodup := Plan.order_nodup (planOf_ok_iff.mp planned).2
  obtain ⟨between, builds⟩ := run.builds accepts
  have built : Model.build plan spec.quantities spec.formulas spec.prebuilt options r = (.ok m, between) :=
    Model.addNames_of_builds unique (fun _ _ => rfl) builds
  obtain ⟨kept, submitted⟩ := submit_recorded options rules between
  simp only [compile, planned, built, compiled, submitted]
  exact ⟨_, rfl⟩

theorem compile_refused {spec : Specification K} {options : BuildOptions} {plan : Plan} {m : Model K}
    (required : options.editStrength = .required) (planned : planOf spec = .ok plan)
    (run : Model.Compiles spec plan.names {} m) {name : String} (declared : name ∈ spec.quantities.names) (r : Recorder K) :
    ∃ after, compile spec options r = (.error (.solver (.requiredAdjustable 0)), after) := by
  have unique : plan.names.Nodup := Plan.order_nodup (planOf_ok_iff.mp planned).2
  have listed : name ∈ plan.names := (mem_planOf_iff planned name).mpr (.inl declared)
  obtain ⟨term, stored⟩ := (NameTable.mem_names_iff _ _).mp declared
  obtain ⟨after, refused⟩ := run.refused unique (fun _ _ => rfl) ⟨name, listed, stored ▸ Option.some_ne_none term⟩ r
  refine ⟨after, ?_⟩
  simp only [compile, planned, Model.build, required, refused]
  rfl

theorem planOf_declare {spec : Specification K} {plan : Plan} {n : String} {term : Term K}
    (quantity : term.IsQuantity) (noQuantity : n ∉ spec.quantities.names) (noFormula : n ∉ spec.formulas.names)
    (planned : planOf spec = .ok plan) :
    ∃ more, planOf (spec.declare n term) = .ok ⟨more⟩ ∧ Gains n plan.names more := by
  obtain ⟨single, ordered⟩ := planOf_ok_iff.mp planned
  have joined : (spec.quantities.insert n term).union spec.formulas =
      (spec.quantities.union spec.formulas).insert n term := by
    refine NameTable.eq_of_get? fun name => ?_
    rw [NameTable.get?_union, NameTable.get?_insert, NameTable.get?_insert, NameTable.get?_union]
    by_cases here : name = n
    · rw [if_pos here, if_pos here, here, (NameTable.get?_eq_none_iff _ _).mpr noFormula, Option.none_or]
    · rw [if_neg here, if_neg here]
  have fresh : n ∉ (spec.quantities.union spec.formulas).names := by
    rw [NameTable.mem_names_union]
    exact fun key => key.elim noQuantity noFormula
  obtain ⟨more, again, gains⟩ := Plan.order_gains quantity fresh ordered
  refine ⟨more, planOf_ok_iff.mpr ⟨?_, ?_⟩, gains⟩
  · refine List.find?_eq_none.mpr fun name declared => ?_
    rw [NameTable.contains_iff]
    rcases (NameTable.mem_names_insert _ _ _ _).mp declared with rfl | former
    · exact noFormula
    · exact disjoint_of_single single former
  · exact (congrArg Plan.order joined).trans again

/-- A compilation with one more quantity `n`, whose number is `rank`. -/
structure Widens (n : String) (rank : Nat) (c d : Compilation K) : Prop where
  plan : Gains n c.plan.names d.plan.names
  formulas : d.model.formulas = c.model.formulas.map (Affine.renumber (skip rank))
  rules : d.rules = c.rules.map (Rule.renumber (skip rank))

theorem rank_of_gains {names wider : List String} {n : String} (gains : Gains n names wider) :
    NameTable.rank wider n = NameTable.rank names n := by
  obtain ⟨front, back, rfl, rfl⟩ := gains
  have own : ¬ NameTable.bytes n < NameTable.bytes n := by
    rw [NameTable.bytes_lt_iff]
    exact String.lt_irrefl n
  simp [NameTable.rank, own]

variable {spec : Specification K} {options : BuildOptions} {c : Compilation K} {after : Recorder K} {n : String}
  {term : Term K}

theorem declare_compiles (raw : spec.isRaw = true)
    (constant : ∀ name e, spec.prebuilt.get? name = some e → e.quantities = [])
    (accepted : compile spec options ({} : Recorder K) = (.ok c, after)) (quantity : term.IsQuantity)
    (noQuantity : n ∉ spec.quantities.names) (noFormula : n ∉ spec.formulas.names) (unreferenced : ¬ spec.Refers n) :
    ∃ plan last number, planOf (spec.declare n term) = .ok plan ∧ Gains n c.plan.names plan.names ∧
      Model.Compiles (spec.declare n term) plan.names {} last ∧ Model.Renumbered (skip number) n c.model last ∧
      last.quantities.id? n = some number := by
  have compiled := compile_ok accepted
  have planned : planOf spec = .ok c.plan := planOf_ok_iff.mpr ⟨compiled.single, compiled.ordered⟩
  obtain ⟨more, plannedMore, front, back, split, rfl⟩ := planOf_declare quantity noQuantity noFormula planned
  have absent : n ∉ c.plan.names := by
    rw [mem_planOf_iff planned]
    exact fun key => key.elim noQuantity noFormula
  rw [split, List.mem_append, not_or] at absent
  obtain ⟨_, run, _⟩ := compiled.built
  rw [split] at run
  obtain ⟨middle, _, first, second⟩ := run.append
  obtain ⟨last, wider, renumbered, number⟩ :=
    Model.Compiles.insert quantity raw constant unreferenced first.compiles second.compiles absent.1 absent.2
  exact ⟨_, last, _, plannedMore, ⟨front, back, split, rfl⟩, wider, renumbered, number⟩

theorem no_quantity_of_required {r : Recorder K} (accepted : compile spec options r = (.ok c, after))
    (required : options.editStrength = .required) : spec.quantities.names = [] := by
  refine List.eq_nil_iff_forall_not_mem.mpr fun name declared => ?_
  have compiled := compile_ok accepted
  obtain ⟨_, run, _⟩ := compiled.built
  have planned : planOf spec = .ok c.plan := planOf_ok_iff.mpr ⟨compiled.single, compiled.ordered⟩
  obtain ⟨_, refused⟩ := compile_refused required planned run.compiles declared r
  rw [accepted] at refused
  cases refused

/-- A quantity that nothing refers to can be declared beside any others, and the numbers from its own on move up. That
is all it changes, unless the edit strength is required: at that strength no recorder takes a quantity, so what compiles
declares none, and with one it is refused. -/
theorem declare_unreferenced (raw : spec.isRaw = true)
    (constant : ∀ name e, spec.prebuilt.get? name = some e → e.quantities = [])
    (accepted : compile spec options ({} : Recorder K) = (.ok c, after)) (quantity : term.IsQuantity)
    (noQuantity : n ∉ spec.quantities.names) (noFormula : n ∉ spec.formulas.names) (unreferenced : ¬ spec.Refers n) :
    (options.editStrength ≠ .required → ∃ d finish,
      compile (spec.declare n term) options ({} : Recorder K) = (.ok d, finish) ∧
        Widens n (NameTable.rank spec.quantities.names n) c d) ∧
    (options.editStrength = .required → spec.quantities.names = [] ∧ ∃ finish,
      compile (spec.declare n term) options ({} : Recorder K) =
        (.error (.solver (.requiredAdjustable 0)), finish)) := by
  obtain ⟨plan, last, number, planned, gains, wider, renumbered, numbered⟩ :=
    declare_compiles raw constant accepted quantity noQuantity noFormula unreferenced
  have declared : n ∈ (spec.declare n term).quantities.names := (NameTable.mem_names_insert _ _ _ _).mpr (.inl rfl)
  constructor
  · intro soft
    have rules := Rule.compileAll_renumber (skip_strictMono number)
      (fun tuple declared => Specification.isRaw_rule raw declared)
      (fun tuple declared => renumbered.scope (skip_strictMono number) constant fun refers =>
        unreferenced (.rule declared refers))
      (compile_ok accepted).rules
    obtain ⟨finish, acceptedMore⟩ := compile_of_compiles options planned wider rules (Recorder.accepts_fresh soft 0 _)
    -- The wider build numbers by rank like any other, which tells the number of the new name.
    have rank : number = NameTable.rank spec.quantities.names n := by
      have ranked := (compile_ok acceptedMore).laidOut.numbered n declared
      rw [← rank_of_gains (NameTable.names_insert_gains term noQuantity)]
      exact Option.some.inj (numbered.symm.trans ranked)
    refine ⟨_, finish, acceptedMore, gains, ?_, rank ▸ rfl⟩
    refine NameTable.eq_of_get? fun name => ?_
    rw [NameTable.get?_map, ← rank]
    exact renumbered.formulas name
  · intro required
    exact ⟨no_quantity_of_required accepted required, compile_refused required planned wider declared _⟩

/-- A token word as the name of a quantity: `weak` comes between `height` and `width`. -/
theorem shadowed_declare_weak :
    (shadowed.isRaw = true ∧ (∀ name e, shadowed.prebuilt.get? name = some e → e.quantities = []) ∧
      "weak" ∉ shadowed.quantities.names ∧ "weak" ∉ shadowed.formulas.names ∧ ¬ shadowed.Refers "weak") ∧
    ∃ c after d finish, compile shadowed {} ({} : Recorder Rat) = (.ok c, after) ∧
      compile (shadowed.declare "weak" (.producer (.constant 7))) {} ({} : Recorder Rat) = (.ok d, finish) ∧
      Widens "weak" 1 c d := by
  have raw : shadowed.isRaw = true := by cbv
  have noQuantity : "weak" ∉ shadowed.quantities.names := by decide +kernel
  have noFormula : "weak" ∉ shadowed.formulas.names := by decide +kernel
  have unreferenced : ¬ shadowed.Refers "weak" := by decide +kernel
  have constant (name : String) (e : Affine Rat) (stored : shadowed.prebuilt.get? name = some e) :
      e.quantities = [] := by
    have each : ∀ entry ∈ shadowed.prebuilt.entries, entry.2.quantities = [] := by decide +kernel
    exact each _ (NameTable.mem_of_get? stored)
  have rank : NameTable.rank shadowed.quantities.names "weak" = 1 := by decide +kernel
  obtain ⟨c, after, accepted⟩ := shadowed_accepted
  obtain ⟨d, finish, declared, widens⟩ := (declare_unreferenced raw constant accepted (.producer (.constant 7))
    noQuantity noFormula unreferenced).1 Strength.noConfusion
  exact ⟨⟨raw, constant, noQuantity, noFormula, unreferenced⟩, c, after, d, finish, accepted, declared, rank ▸ widens⟩

/-- The edit strength is not free: at required strength the layout of nothing compiles, and one of a quantity does
not. -/
theorem declare_unreferenced_needs_soft_edits :
    ¬ ∀ (spec : Specification Float) (options : BuildOptions) (c : Compilation Float) (after : Recorder Float),
      spec.isRaw = true → (∀ name e, spec.prebuilt.get? name = some e → e.quantities = []) →
      compile spec options ({} : Recorder Float) = (.ok c, after) →
      ∀ (n : String) (term : Term Float), term.IsQuantity → n ∉ spec.quantities.names → n ∉ spec.formulas.names →
        ¬ spec.Refers n →
        ∃ d finish, compile (spec.declare n term) options ({} : Recorder Float) = (.ok d, finish) ∧
          Widens n (NameTable.rank spec.quantities.names n) c d := by
  intro everywhere
  have finite : Scalar.isFinite (1 : Float) = true := by decide +kernel
  have unreferenced : ¬ ({} : Specification Float).Refers "n" := by decide +kernel
  obtain ⟨d, finish, accepted, _⟩ := everywhere {} ⟨.required, true⟩ ⟨{}, [], ⟨[]⟩, ∅⟩ _ rfl
    (fun _ _ stored => by cases stored) rfl "n" (.number 1) (.number finite) List.not_mem_nil List.not_mem_nil
    unreferenced
  have refused : (compile (({} : Specification Float).declare "n" (.number 1)) ⟨.required, true⟩
      ({} : Recorder Float)).1.isOk = false := by decide +kernel
  rw [accepted] at refused
  cases refused

end Compilation
end ReactiveLayout
