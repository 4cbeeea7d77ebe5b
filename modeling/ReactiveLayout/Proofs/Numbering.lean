import ReactiveLayout.Proofs.ByteOrder
import ReactiveLayout.Proofs.Retention

/-! How an accepted specification is laid out. Quantities are numbered by the bytes of their names, so a number hangs on
the set of these names and on nothing else; producers come in the order of these numbers, and the plan has every
declared name once. -/
namespace ReactiveLayout
variable {K : Type}

namespace NameTable

/-- How many names have smaller bytes. -/
def rank (names : List String) (name : String) : Nat := names.countP fun other => bytes other < bytes name

/-- Among names in order, the position of a name is its rank. -/
theorem idxOf?_eq_rank {names : List String} (ordered : names.Pairwise (· < ·)) {name : String} (member : name ∈ names) :
    names.idxOf? name = some (rank names name) := by
  induction names with
  | nil => cases member
  | cons first rest ih =>
    obtain ⟨above, ordered⟩ := List.pairwise_cons.mp ordered
    rw [List.idxOf?_cons]
    by_cases here : first = name
    · subst here
      have none : rank (first :: rest) first = 0 := by
        apply List.countP_eq_zero.mpr
        intro other among
        rw [decide_eq_true_eq, bytes_lt_iff]
        rcases List.mem_cons.mp among with rfl | later
        · exact String.lt_irrefl _
        · exact String.lt_asymm (above other later)
      simp [none]
    · have later : name ∈ rest := (List.mem_cons.mp member).resolve_left (Ne.symm here)
      have counted : rank (first :: rest) name = rank rest name + 1 := by
        apply List.countP_cons_of_pos
        rw [decide_eq_true_eq, bytes_lt_iff]
        exact above name later
      simp [here, ih ordered later, counted]

end NameTable

variable [Scalar K]

/-- The value that a quantity starts at: the declared one, or zero if it is produced. -/
inductive Term.StartsAt : Term K → K → Prop where
  | number (value : K) : StartsAt (.number value) value
  | descriptor (value : K) : StartsAt (.descriptor value) value
  | producer (source : Producer K) : StartsAt (.producer source) 0

namespace Model

theorem initialOf_startsAt {name : String} {term : Term K} {initial : K} {producer : Option (Producer K)}
    (read : initialOf name term = .ok (initial, producer)) : term.StartsAt initial := by
  obtain ⟨rfl, _⟩ := initialOf_ok read
  cases term with
  | number value => exact .number value
  | descriptor value => exact .descriptor value
  | producer source => exact .producer source
  | reference | token | array | built => cases read

theorem initialOf_producer_iff {name : String} {term : Term K} {initial : K} {producer : Option (Producer K)}
    (read : initialOf name term = .ok (initial, producer)) (source : Producer K) :
    producer = some source ↔ term = .producer source := by
  constructor
  · rintro rfl
    exact initialOf_producer read
  · rintro rfl
    cases read
    rfl

/-- The producers of a model are those of its quantities, by number. -/
structure Produces (spec : Specification K) (m : Model K) : Prop where
  ordered : (m.producers.map (·.1)).Pairwise (· < ·)
  sources : ∀ id source, (id, source) ∈ m.producers ↔
    ∃ q, m.quantities.get? id = some q ∧ spec.quantities.get? q.name = some (.producer source)

omit [Scalar K] in
theorem produces_empty (spec : Specification K) : Produces spec {} where
  ordered := List.Pairwise.nil
  sources id source := by simp [QuantityTable.get?, QuantityTable.empty]

variable {σ : Type} [Solver σ K] {spec : Specification K} {strength : Strength} {m final : Model K} {solver after : σ}

theorem AddsName.produces {name : String} (added : AddsName spec strength name m solver final after)
    (produces : Produces spec m) : Produces spec final := by
  cases added with
  | formula => exact ⟨produces.ordered, produces.sources⟩
  | @quantity term initial producer _ declared read fresh registered =>
    have below {id : QuantityId} {source : Producer K} (member : (id, source) ∈ m.producers) :
        id < m.quantities.size := by
      obtain ⟨q, found, _⟩ := (produces.sources id source).mp member
      exact (List.getElem?_eq_some_iff.mp found).1
    constructor
    · rw [List.map_append, List.pairwise_append]
      refine ⟨produces.ordered, ?_, ?_⟩
      · cases producer <;> simp
      · intro id earlier new here
        obtain ⟨⟨_, source⟩, member, rfl⟩ := List.mem_map.mp earlier
        cases producer with
        | none => cases here
        | some other =>
          obtain rfl : new = m.quantities.size := by simpa using here
          exact below member
    · intro id source
      have here : (id, source) ∈ (producer.map fun p => (m.quantities.size, p)).toList ↔
          id = m.quantities.size ∧ term = .producer source := by
        rw [← initialOf_producer_iff read source]
        cases producer with
        | none => simp
        | some other => simp [eq_comm]
      rw [List.mem_append, here, QuantityTable.get?_concat]
      by_cases new : id = m.quantities.size
      · have notOld : (id, source) ∉ m.producers := by
          intro member
          exact Nat.ne_of_lt (below member) new
        simp [new ▸ notOld, new, declared]
      · simp [new, produces.sources]

theorem Builds.produces {names : List String} (run : Builds spec strength names m solver final after)
    (produces : Produces spec m) : Produces spec final := by
  induction run with
  | nil => exact produces
  | cons first _ ih => exact ih (first.produces produces)

end Model

namespace Compilation

/-- How a specification is laid out. -/
structure LaidOut (spec : Specification K) (c : Compilation K) : Prop where
  quantities : c.model.quantities.names.Perm spec.quantities.names
  /-- A quantity has the number that its name has among the declared ones in the order of their bytes. -/
  numbered : ∀ name ∈ spec.quantities.names,
    c.model.quantities.id? name = some (NameTable.rank spec.quantities.names name)
  values : ∀ id q, c.model.quantities.get? id = some q →
    ∃ term, spec.quantities.get? q.name = some term ∧ term.StartsAt q.value
  formulas : ∀ name, name ∈ c.model.formulas.names ↔ name ∈ spec.formulas.names
  producers : ∀ id source, (id, source) ∈ c.model.producers ↔
    ∃ name, c.model.quantities.id? name = some id ∧ spec.quantities.get? name = some (.producer source)
  producersOrdered : (c.model.producers.map (·.1)).Pairwise (· < ·)
  plan : c.plan.names.Perm (spec.quantities.names ++ spec.formulas.names)

/-- Numbers hang on the set of the quantity names alone. -/
theorem LaidOut.id?_congr {spec other : Specification K} {c d : Compilation K} (laidOut : LaidOut spec c)
    (another : LaidOut other d) (same : ∀ name, name ∈ other.quantities.names ↔ name ∈ spec.quantities.names)
    (name : String) : d.model.quantities.id? name = c.model.quantities.id? name := by
  have names : other.quantities.names = spec.quantities.names :=
    NameTable.eq_of_ordered other.quantities.ordered spec.quantities.ordered same
  by_cases declared : name ∈ spec.quantities.names
  · rw [laidOut.numbered name declared, another.numbered name ((same name).mpr declared), names]
  · have absent : name ∉ c.model.quantities.names := by
      rwa [laidOut.quantities.mem_iff]
    have alsoAbsent : name ∉ d.model.quantities.names := by
      rwa [another.quantities.mem_iff, same]
    rw [QuantityTable.id?_eq_none_iff.mpr absent, QuantityTable.id?_eq_none_iff.mpr alsoAbsent]

variable {σ : Type} [Solver σ K] {spec : Specification K} {options : BuildOptions} {solver after : σ} {c : Compilation K}

theorem Compiled.names_nodup (compiled : Compiled spec options solver c after) : c.model.quantities.names.Nodup := by
  rw [compiled.quantity_names]
  exact spec.quantities.names_nodup

theorem Compiled.startsAt (compiled : Compiled spec options solver c after) {id : QuantityId} {q : Quantity K}
    (found : c.model.quantities.get? id = some q) :
    ∃ term, spec.quantities.get? q.name = some term ∧ term.StartsAt q.value := by
  have member : q ∈ c.model.quantities.entries := List.mem_of_getElem? found
  rw [compiled.quantities] at member
  obtain ⟨entry, declared, rfl⟩ := List.mem_map.mp member
  have bound := NameTable.get?_of_mem declared
  have planned := (compiled.mem_plan_iff entry.1).mpr (.inl (NameTable.mem_names_of_get? bound))
  obtain ⟨_, run, _⟩ := compiled.built
  obtain ⟨⟨initial, producer⟩, read⟩ := run.initialOf planned bound
  obtain ⟨rfl, _⟩ := Model.initialOf_ok read
  exact ⟨entry.2, bound, Model.initialOf_startsAt read⟩

theorem Compiled.plan_perm (compiled : Compiled spec options solver c after) :
    c.plan.names.Perm (spec.quantities.names ++ spec.formulas.names) := by
  have apart : (spec.quantities.names ++ spec.formulas.names).Nodup := by
    refine List.nodup_append.mpr ⟨spec.quantities.names_nodup, spec.formulas.names_nodup, ?_⟩
    rintro name quantity other formula rfl
    exact disjoint_of_single compiled.single quantity formula
  apply (List.perm_ext_iff_of_nodup (Plan.order_nodup compiled.ordered) apart).mpr
  intro name
  rw [compiled.mem_plan_iff, List.mem_append]

theorem Compiled.laidOut (compiled : Compiled spec options solver c after) : LaidOut spec c where
  quantities := by rw [compiled.quantity_names]
  numbered name declared := by
    rw [QuantityTable.id?_eq_idxOf?, compiled.quantity_names]
    exact NameTable.idxOf?_eq_rank spec.quantities.ordered declared
  values _ _ found := compiled.startsAt found
  formulas name := by rw [compiled.formula_names]
  producers id source := by
    obtain ⟨_, run, _⟩ := compiled.built
    rw [(run.produces (Model.produces_empty spec)).sources id source]
    constructor
    · rintro ⟨q, found, declared⟩
      exact ⟨q.name, (QuantityTable.id?_eq_some_iff compiled.names_nodup).mpr ⟨q, found, rfl⟩, declared⟩
    · rintro ⟨name, numbered, declared⟩
      obtain ⟨q, found, rfl⟩ := (QuantityTable.id?_eq_some_iff compiled.names_nodup).mp numbered
      exact ⟨q, found, declared⟩
  producersOrdered := by
    obtain ⟨_, run, _⟩ := compiled.built
    exact (run.produces (Model.produces_empty spec)).ordered
  plan := compiled.plan_perm

/-- Whatever the solver, an accepted specification is laid out by its names, and the numbers of its quantities are those
of any other that is accepted and declares the same ones. A solver that takes nothing back holds the quantities as
adjustables, at the values of the table; so do both solvers, one of them on any engine that keeps its variables. -/
theorem compile_laidOut (spec : Specification K) (options : BuildOptions) (c : Compilation K) :
    (∀ {σ : Type} [Solver σ K] (solver after : σ), compile spec options solver = (.ok c, after) →
      LaidOut spec c ∧ (Solver.Retains σ → c.model.HeldBy after) ∧
        ∀ {ρ : Type} [Solver ρ K] (other : Specification K) (others : BuildOptions) (start finish : ρ)
          (d : Compilation K), compile other others start = (.ok d, finish) →
          (∀ name, name ∈ other.quantities.names ↔ name ∈ spec.quantities.names) →
          ∀ name, d.model.quantities.id? name = c.model.quantities.id? name) ∧
      (∀ recorder after : Recorder K, compile spec options recorder = (.ok c, after) → c.model.HeldBy after) ∧
      ∀ {τ : Type} [Engine τ K], Engine.KeepsEdits τ →
        ∀ solver after : EngineSolver τ K, compile spec options solver = (.ok c, after) → c.model.HeldBy after := by
  refine ⟨?_, ?_, ?_⟩
  · intro σ _ solver after accepted
    have compiled := compile_ok accepted
    refine ⟨compiled.laidOut, fun retains => compiled.heldBy retains, ?_⟩
    intro ρ _ other others start finish d alsoAccepted same name
    exact compiled.laidOut.id?_congr (compile_ok alsoAccepted).laidOut same name
  · intro recorder after accepted
    exact (compile_ok accepted).heldBy Recorder.retains
  · intro τ _ keeps solver after accepted
    exact (compile_ok accepted).heldBy (EngineSolver.retains keeps)

theorem shadowed_laidOut : ∃ c after d finish, compile shadowed {} ({} : Recorder Rat) = (.ok c, after) ∧
    compile shadowed {} ({} : Minimizer Rat) = (.ok d, finish) ∧ LaidOut shadowed c ∧ c.model.HeldBy after ∧
    d.model.HeldBy finish ∧ ∀ name, d.model.quantities.id? name = c.model.quantities.id? name := by
  obtain ⟨c, after, accepted⟩ := shadowed_accepted
  have ok : (compile shadowed {} ({} : Minimizer Rat)).1.isOk = true := by cbv
  cases settled : compile shadowed {} ({} : Minimizer Rat) with
  | mk answer finish =>
    rw [settled] at ok
    cases answer with
    | error e => cases ok
    | ok d =>
      obtain ⟨everySolver, recorders, _⟩ := compile_laidOut shadowed {} c
      obtain ⟨laidOut, _, numbers⟩ := everySolver _ _ accepted
      obtain ⟨_, _, engines⟩ := compile_laidOut shadowed {} d
      refine ⟨c, after, d, finish, accepted, rfl, laidOut, recorders _ _ accepted, ?_, ?_⟩
      · exact engines Optimizer.keepsEdits _ _ settled
      · exact numbers shadowed {} _ _ d settled fun _ => Iff.rfl

end Compilation
end ReactiveLayout
