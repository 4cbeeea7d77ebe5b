import Mathlib
import ReactiveLayout.Proofs.Construction

/-! How names are built, one after the other, told from both sides: a build that fails has built the names in front of
one that stops it, and names that compile are built if the solver accepts their quantities. On a recorder the calls are
the registrations, by number. -/
namespace ReactiveLayout
variable {K : Type}

namespace ValueMap

theorem lookup_set_self (id : QuantityId) (value : K) (values : ValueMap K) :
    (set id value values).lookup id = some value := by
  induction values with
  | nil => simp [set]
  | cons entry rest ih =>
    simp only [set]
    split
    · simp
    · split
      · simp
      · rename_i other
        rw [List.lookup_cons, beq_eq_false_iff_ne.mpr other]
        exact ih

theorem lookup_set_ne {id other : QuantityId} (value : K) (values : ValueMap K) (different : other ≠ id) :
    (set id value values).lookup other = values.lookup other := by
  have apart : (other == id) = false := beq_eq_false_iff_ne.mpr different
  induction values with
  | nil => rw [set, List.lookup_cons, apart]
  | cons entry rest ih =>
    simp only [set]
    split
    · rw [List.lookup_cons, apart]
    · split
      · rename_i same
        rw [List.lookup_cons, List.lookup_cons, ← same, apart]
      · rw [List.lookup_cons, List.lookup_cons, ih]

end ValueMap

namespace Recorder

/-- The calls that register quantities under the numbers from `first` on. -/
def registrations (strength : Strength) (first : Nat) (quantities : List (Quantity K)) : List (Call K) :=
  (quantities.zipIdx first).map fun q => .register q.2 q.1.value strength

theorem registrations_concat (strength : Strength) (quantities : List (Quantity K)) (q : Quantity K) :
    registrations strength 0 (quantities ++ [q]) =
      registrations strength 0 quantities ++ [.register quantities.length q.value strength] := by
  simp [registrations, List.zipIdx_append]

/-- A registration is accepted or refused by its strength and by what was known of its number. -/
theorem register_congr {r other : Recorder K} {id : QuantityId} (known : other.values.lookup id = r.values.lookup id)
    (value : K) (strength : Strength) : (other.register id value strength).1 = (r.register id value strength).1 := by
  unfold register
  dsimp only
  split
  · rfl
  · rw [known]
    split <;> rfl

theorem calls_of_register {r after : Recorder K} {id : QuantityId} {value : K} {strength : Strength}
    {answer : Except (SolverError K) Unit} (replied : r.register id value strength = (answer, after)) :
    after.calls = r.calls ++ [.register id value strength] := by
  obtain rfl : (r.register id value strength).2 = after := congrArg Prod.snd replied
  unfold register
  dsimp only
  split
  · rfl
  · split <;> rfl

theorem lookup_of_register {r after : Recorder K} {id other : QuantityId} {value : K} {strength : Strength}
    {answer : Except (SolverError K) Unit} (replied : r.register id value strength = (answer, after))
    (different : other ≠ id) : after.values.lookup other = r.values.lookup other := by
  obtain rfl : (r.register id value strength).2 = after := congrArg Prod.snd replied
  unfold register
  dsimp only
  split
  · rfl
  · split <;> exact ValueMap.lookup_set_ne _ _ different

theorem lookup_registered {r after : Recorder K} {id : QuantityId} {initial : K} {strength : Strength}
    (registered : r.register id initial strength = (.ok (), after)) : after.values.lookup id = some initial := by
  unfold register at registered
  dsimp only at registered
  split at registered
  · cases registered
  · split at registered
    · cases registered
    · cases registered
      exact ValueMap.lookup_set_self _ _ _

/-- All of some quantities can be registered under the numbers from `first` on. -/
def Accepts (r : Recorder K) (strength : Strength) (first : Nat) (quantities : List (Quantity K)) : Prop :=
  ∀ i q, quantities[i]? = some q → (r.register (first + i) q.value strength).1 = .ok ()

theorem accepts_cons {r : Recorder K} {strength : Strength} {first : Nat} {q : Quantity K}
    {quantities : List (Quantity K)} : r.Accepts strength first (q :: quantities) ↔
      (r.register first q.value strength).1 = .ok () ∧ r.Accepts strength (first + 1) quantities := by
  constructor
  · intro accepts
    refine ⟨accepts 0 q rfl, fun i next found => ?_⟩
    rw [Nat.add_assoc, Nat.add_comm 1 i]
    exact accepts (i + 1) next found
  · rintro ⟨here, later⟩ i next found
    cases i with
    | zero =>
      cases found
      exact here
    | succ i =>
      have shifted : first + (i + 1) = first + 1 + i := by omega
      rw [shifted]
      exact later i next found

theorem Accepts.congr {r other : Recorder K} {strength : Strength} {first : Nat} {quantities : List (Quantity K)}
    (accepts : r.Accepts strength first quantities)
    (known : ∀ id : Nat, first ≤ id → other.values.lookup id = r.values.lookup id) :
    other.Accepts strength first quantities := by
  intro i q found
  rw [register_congr (known (first + i) (Nat.le_add_right _ _))]
  exact accepts i q found

end Recorder

variable [Scalar K]

namespace Model
variable {σ : Type} [Solver σ K]

theorem addName_of_adds {spec : Specification K} {strength : Strength} {quantities : NameTable (Term K)} {name : String}
    {m final : Model K} {solver after : σ} (same : quantities.get? name = spec.quantities.get? name)
    (adds : AddsName spec strength name m solver final after) :
    addName strength quantities spec.formulas spec.prebuilt name m solver = (.ok final, after) := by
  cases adds with
  | @quantity term initial _ _ declared read fresh registered =>
    have inserted : m.quantities.insert? name initial = some (m.quantities.size, ⟨m.quantities.entries ++ [⟨name, initial⟩]⟩) :=
      QuantityTable.insert?_eq_some_iff.mpr ⟨fresh, rfl, rfl⟩
    simp only [addName, same, declared, addQuantity, read, inserted, registered]
  | formula undeclared declared compiled => simp only [addName, same, undeclared, declared, compiled]

theorem addNames_of_builds {spec : Specification K} {strength : Strength} {quantities : NameTable (Term K)}
    {names : List String} {m final : Model K} {solver after : σ} (unique : names.Nodup)
    (same : ∀ name ∈ names, quantities.get? name = spec.quantities.get? name)
    (run : Builds spec strength names m solver final after) :
    addNames strength quantities spec.formulas spec.prebuilt names m solver = (.ok final, after) := by
  induction run generalizing quantities with
  | nil => rfl
  | @cons name rest _ _ _ _ _ _ first _ ih =>
    obtain ⟨absent, unique⟩ := List.nodup_cons.mp unique
    simp only [addNames, addName_of_adds (same name List.mem_cons_self) first]
    refine ih unique fun other member => ?_
    have different : other ≠ name := fun equal => absent (equal ▸ member)
    rw [NameTable.get?_erase_ne _ different]
    exact same other (List.mem_cons_of_mem _ member)

/-- All that can stop a build at a name: the name does not compile and the solver is not called, or it is a quantity
that the solver refuses. -/
inductive Stops (spec : Specification K) (strength : Strength) (name : String) (m : Model K) (solver : σ) :
    BuildError K → σ → Prop where
  | compile (e : CompileError K) : Stops spec strength name m solver (.compile e) solver
  | solver {term : Term K} {initial : K} {producer : Option (Producer K)} {e : SolverError K} {after : σ}
      (declared : spec.quantities.get? name = some term) (read : initialOf name term = .ok (initial, producer))
      (refused : Solver.register m.quantities.size initial strength solver = (.error e, after)) :
      Stops spec strength name m solver (.solver e) after

theorem addName_error {spec : Specification K} {strength : Strength} {quantities : NameTable (Term K)} {name : String}
    {m : Model K} {solver after : σ} {e : BuildError K} (same : quantities.get? name = spec.quantities.get? name)
    (failed : addName strength quantities spec.formulas spec.prebuilt name m solver = (.error e, after)) :
    Stops spec strength name m solver e after := by
  unfold addName at failed
  split at failed
  · rename_i term declared
    unfold addQuantity at failed
    split at failed
    · cases failed
      exact .compile _
    · rename_i initial producer read
      split at failed
      · cases failed
        exact .compile _
      · rename_i id table inserted
        obtain ⟨_, rfl, _⟩ := QuantityTable.insert?_eq_some_iff.mp inserted
        split at failed
        · rename_i refused
          cases failed
          exact .solver (same ▸ declared) read refused
        · cases failed
  · split at failed
    · cases failed
      exact .compile _
    · split at failed
      · cases failed
        exact .compile _
      · cases failed

/-- A build that fails has added the names in front of one that cannot be added, and has taken them out of the table of
quantities. -/
theorem addNames_stop {strength : Strength} {quantities formulas : NameTable (Term K)} {prebuilt : NameTable (Affine K)}
    {names : List String} {m : Model K} {solver after : σ} {e : BuildError K}
    (failed : addNames strength quantities formulas prebuilt names m solver = (.error e, after)) :
    ∃ front name back middle between, names = front ++ name :: back ∧
      addNames strength quantities formulas prebuilt front m solver = (.ok middle, between) ∧
      addName strength (front.foldl NameTable.erase quantities) formulas prebuilt name middle between =
        (.error e, after) := by
  induction names generalizing quantities m solver with
  | nil => cases failed
  | cons name rest ih =>
    rw [addNames] at failed
    split at failed
    · rename_i stopped
      cases failed
      exact ⟨[], name, rest, m, solver, rfl, rfl, stopped⟩
    · rename_i middle between added
      obtain ⟨front, stop, back, last, before, rfl, run, stopped⟩ := ih failed
      refine ⟨name :: front, stop, back, last, before, rfl, ?_, stopped⟩
      rw [addNames, added]
      exact run

/-- A build that fails has built the names in front of one that stops it. -/
theorem addNames_error {spec : Specification K} {strength : Strength} {quantities : NameTable (Term K)}
    {names : List String} {m : Model K} {solver after : σ} {e : BuildError K} (unique : names.Nodup)
    (same : ∀ name ∈ names, quantities.get? name = spec.quantities.get? name)
    (failed : addNames strength quantities spec.formulas spec.prebuilt names m solver = (.error e, after)) :
    ∃ front name back middle between, names = front ++ name :: back ∧
      Builds spec strength front m solver middle between ∧ Stops spec strength name middle between e after := by
  obtain ⟨front, name, back, middle, between, rfl, run, stopped⟩ := addNames_stop failed
  obtain ⟨uniqueFront, _, apart⟩ := List.nodup_append.mp unique
  have absent : name ∉ front := fun twice => apart name twice name List.mem_cons_self rfl
  have here : (front.foldl NameTable.erase quantities).get? name = spec.quantities.get? name := by
    rw [NameTable.get?_foldl_erase _ absent]
    exact same name (List.mem_append_right _ List.mem_cons_self)
  have built := addNames_builds uniqueFront (fun other member => same other (List.mem_append_left _ member)) run
  exact ⟨front, name, back, middle, between, rfl, built, addName_error here stopped⟩

/-- What a run of the build does to a recorder: it registers quantities under the next numbers, each accepted, and
leaves what was known of all later numbers. -/
structure Registers (strength : Strength) (first : Nat) (quantities : List (Quantity K)) (r after : Recorder K) :
    Prop where
  calls : after.calls = r.calls ++ Recorder.registrations strength first quantities
  later : ∀ id : Nat, first + quantities.length ≤ id → after.values.lookup id = r.values.lookup id
  accepted : r.Accepts strength first quantities

omit [Scalar K] in
theorem Registers.cons {strength : Strength} {first : Nat} {q : Quantity K} {quantities : List (Quantity K)}
    {r between after : Recorder K} (registered : r.register first q.value strength = (.ok (), between))
    (rest : Registers strength (first + 1) quantities between after) :
    Registers strength first (q :: quantities) r after where
  calls := by
    simp [rest.calls, Recorder.calls_of_register registered, Recorder.registrations]
  later id beyond := by
    rw [List.length_cons] at beyond
    have different : id ≠ first := by omega
    rw [rest.later id (by omega), Recorder.lookup_of_register registered different]
  accepted := by
    refine Recorder.accepts_cons.mpr ⟨congrArg Prod.fst registered, rest.accepted.congr fun id later => ?_⟩
    have different : id ≠ first := by omega
    exact (Recorder.lookup_of_register registered different).symm

/-- Names of a specification that compile in turn, whatever a solver says of the quantities among them. -/
inductive Compiles (spec : Specification K) : List String → Model K → Model K → Prop where
  | nil {m : Model K} : Compiles spec [] m m
  | quantity {name : String} {rest : List String} {m final : Model K} {term : Term K} {initial : K}
      {producer : Option (Producer K)}
      (declared : spec.quantities.get? name = some term)
      (read : initialOf name term = .ok (initial, producer))
      (fresh : m.quantities.id? name = none)
      (later : Compiles spec rest
        { m with
          quantities := ⟨m.quantities.entries ++ [⟨name, initial⟩]⟩
          producers := m.producers ++ (producer.map fun p => (m.quantities.size, p)).toList }
        final) :
      Compiles spec (name :: rest) m final
  | formula {name : String} {rest : List String} {m final : Model K} {term : Term K} {e : Affine K}
      (undeclared : spec.quantities.get? name = none)
      (declared : spec.formulas.get? name = some term)
      (compiled : expressionOf name term (m.scope spec.prebuilt) = .ok e)
      (later : Compiles spec rest { m with formulas := m.formulas.insert name e } final) :
      Compiles spec (name :: rest) m final

theorem Builds.compiles {spec : Specification K} {strength : Strength} {names : List String} {m final : Model K}
    {solver after : σ} (run : Builds spec strength names m solver final after) : Compiles spec names m final := by
  induction run with
  | nil => exact .nil
  | cons first _ ih =>
    cases first with
    | quantity declared read fresh _ => exact .quantity declared read fresh ih
    | formula undeclared declared compiled => exact .formula undeclared declared compiled ih

omit [Solver σ K] in
theorem quantity?_of_declared {spec : Specification K} {name : String} {term : Term K}
    (declared : spec.quantities.get? name = some term) : quantity? spec name = some ⟨name, term.initial⟩ := by
  rw [quantity?, declared, Option.map_some]

omit [Solver σ K] in
theorem initialOf_producer {name : String} {term : Term K} {initial : K} {source : Producer K}
    (read : initialOf name term = .ok (initial, some source)) : term = .producer source := by
  unfold initialOf at read
  cases term with
  | producer other =>
    cases read
    rfl
  | number value | descriptor value =>
    by_cases finite : Scalar.isFinite value = true <;> simp [Term.classify, Term.kind?, finite] at read
  | reference | token | array | built => cases read

theorem Builds.registers {spec : Specification K} {strength : Strength} {names : List String} {m final : Model K}
    {r after : Recorder K} (run : Builds spec strength names m r final after) :
    Registers strength m.quantities.size (names.filterMap (quantity? spec)) r after := by
  induction run with
  | nil => exact ⟨by simp [Recorder.registrations], fun _ _ => rfl, fun _ _ found => by simp at found⟩
  | @cons name rest m middle final r between after first _ ih =>
    cases first with
    | @quantity term initial producer _ declared read fresh registered =>
      obtain ⟨rfl, _⟩ := initialOf_ok read
      rw [List.filterMap_cons_some (quantity?_of_declared declared)]
      refine .cons registered ?_
      simpa [QuantityTable.size] using ih
    | formula undeclared _ _ =>
      rw [List.filterMap_cons_none (by rw [quantity?, undeclared, Option.map_none])]
      exact ih

/-- What compiles is built, if the recorder accepts its quantities. -/
theorem Compiles.builds {spec : Specification K} {strength : Strength} {names : List String} {m final : Model K}
    (run : Compiles spec names m final) {r : Recorder K}
    (accepts : r.Accepts strength m.quantities.size (names.filterMap (quantity? spec))) :
    ∃ after, Builds spec strength names m r final after := by
  induction run generalizing r with
  | nil => exact ⟨r, .nil⟩
  | @quantity name rest m final term initial producer declared read fresh _ ih =>
    obtain ⟨rfl, _⟩ := initialOf_ok read
    rw [List.filterMap_cons_some (quantity?_of_declared declared)] at accepts
    obtain ⟨here, later⟩ := Recorder.accepts_cons.mp accepts
    cases registered : r.register m.quantities.size term.initial strength with
    | mk answer between =>
      rw [registered] at here
      obtain rfl : answer = .ok () := here
      have fewer : between.Accepts strength (m.quantities.size + 1) (rest.filterMap (quantity? spec)) := by
        refine later.congr fun id beyond => Recorder.lookup_of_register registered ?_
        have different : id ≠ m.quantities.size := by omega
        exact different
      obtain ⟨after, run⟩ := ih (r := between) (by simpa [QuantityTable.size] using fewer)
      exact ⟨after, .cons (.quantity declared read fresh registered) run⟩
  | @formula name rest m final term e undeclared declared compiled _ ih =>
    rw [List.filterMap_cons_none (by rw [quantity?, undeclared, Option.map_none])] at accepts
    obtain ⟨after, run⟩ := ih accepts
    exact ⟨after, .cons (.formula undeclared declared compiled) run⟩

end Model
end ReactiveLayout
