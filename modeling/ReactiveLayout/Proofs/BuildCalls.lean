import Mathlib
import ReactiveLayout.Proofs.Indifference
import ReactiveLayout.Proofs.Registration

/-! What a build calls, whether it succeeds or not. A build stops at the first name that it cannot build, so its calls
are the registrations of the names in front of it, by number, and the rules go to the solver at the very end. -/
namespace ReactiveLayout
variable {K : Type} [Scalar K]

namespace Specification

/-- The quantity that a name can be registered as. A declared array is never one. -/
def registrable? (spec : Specification K) (name : String) : Option (Quantity K) :=
  match spec.quantities.get? name with
  | none | some (.array _) => none
  | some term => some ⟨name, term.initial⟩

/-- The quantities that a build can register, by name. -/
def registrable (spec : Specification K) : List (Quantity K) := spec.quantities.names.filterMap spec.registrable?

theorem registrable?_of_notArray {spec : Specification K} {name : String} {term : Term K}
    (declared : spec.quantities.get? name = some term) (notArray : ∀ elements, term ≠ .array elements) :
    spec.registrable? name = some ⟨name, term.initial⟩ := by
  rw [registrable?, declared]
  cases term with
  | array elements => exact absurd rfl (notArray elements)
  | number | descriptor | reference | token | producer | built => rfl

theorem atom_of_registrable {spec : Specification K} (single : Compilation.doubleName? spec = none) {name : String}
    {q : Quantity K} (found : spec.registrable? name = some q) : name ∈ spec.quantities.names ∧
      (Plan.arrayOf? (spec.quantities.union spec.formulas) name).isNone = true := by
  unfold registrable? at found
  split at found
  · cases found
  · cases found
  · rename_i term notArray declared
    have quantity := NameTable.mem_names_of_get? declared
    have notFormula := (NameTable.get?_eq_none_iff _ _).mpr (Compilation.disjoint_of_single single quantity)
    refine ⟨quantity, Plan.isNone_arrayOf? ?_ notArray⟩
    rw [NameTable.get?_union, notFormula, Option.none_or, declared]

end Specification

namespace Compilation

theorem filterMap_plan {spec : Specification K} {plan : Plan} (planned : planOf spec = .ok plan) :
    plan.names.filterMap spec.registrable? = spec.registrable := by
  obtain ⟨single, ordered⟩ := planOf_ok_iff.mp planned
  have byName : plan.names.filter (fun name => (spec.registrable? name).isSome) =
      spec.quantities.names.filter fun name => (spec.registrable? name).isSome := by
    rw [Plan.filter_order ordered]
    · refine NameTable.eq_of_ordered ((spec.quantities.union spec.formulas).ordered.filter _)
        (spec.quantities.ordered.filter _) fun name => ?_
      rw [List.mem_filter, List.mem_filter]
      refine and_congr_left fun some => ?_
      obtain ⟨_, found⟩ := Option.isSome_iff_exists.mp some
      have declared := (Specification.atom_of_registrable single found).1
      exact iff_of_true ((NameTable.mem_names_union _ _ _).mpr (.inl declared)) declared
    · intro name _ some
      obtain ⟨_, found⟩ := Option.isSome_iff_exists.mp some
      exact (Specification.atom_of_registrable single found).2
  have onlySome (names : List String) : names.filterMap spec.registrable? =
      (names.filter fun name => (spec.registrable? name).isSome).filterMap spec.registrable? := by
    rw [List.filterMap_filter]
    refine List.filterMap_congr fun name _ => ?_
    cases spec.registrable? name <;> rfl
  rw [onlySome, byName, ← onlySome, Specification.registrable]

theorem filterMap_compiles {spec : Specification K} {names : List String} {m final : Model K}
    (run : Model.Compiles spec names m final) :
    names.filterMap spec.registrable? = names.filterMap (Model.quantity? spec) := by
  induction run with
  | nil => rfl
  | quantity declared read _ _ ih =>
    have registrable := Specification.registrable?_of_notArray declared (Model.initialOf_ok read).2
    rw [List.filterMap_cons_some registrable, List.filterMap_cons_some (Model.quantity?_of_declared declared), ih]
  | formula undeclared _ _ _ ih =>
    rw [List.filterMap_cons_none (by rw [Specification.registrable?, undeclared]),
      List.filterMap_cons_none (by rw [Model.quantity?, undeclared, Option.map_none]), ih]

theorem registrable_of_builds {spec : Specification K} {strength : Strength} {plan : Plan} {front back : List String}
    {m : Model K} {r after : Recorder K} (planned : planOf spec = .ok plan) (split : plan.names = front ++ back)
    (run : Model.Builds spec strength front {} r m after) :
    spec.registrable = m.quantities.entries ++ back.filterMap spec.registrable? ∧
      Model.Registers strength 0 m.quantities.entries r after := by
  have entries : m.quantities.entries = front.filterMap (Model.quantity? spec) := run.entries
  rw [← filterMap_plan planned, split, List.filterMap_append, filterMap_compiles run.compiles, ← entries]
  exact ⟨rfl, entries ▸ run.registers⟩

theorem declared_of_producer {spec : Specification K} {names : List String} {m final : Model K}
    (run : Model.Compiles spec names m final) {id : QuantityId} {source : Producer K}
    (member : (id, source) ∈ final.producers) :
    (id, source) ∈ m.producers ∨ ∃ name, spec.quantities.get? name = some (.producer source) := by
  induction run with
  | nil => exact .inl member
  | @quantity name _ m _ term initial producer declared read _ _ ih =>
    refine (ih member).elim (fun earlier => ?_) .inr
    rcases List.mem_append.mp earlier with earlier | here
    · exact .inl earlier
    · cases producer with
      | none => cases here
      | some other =>
        obtain ⟨rfl, rfl⟩ : id = m.quantities.size ∧ source = other := by simpa using here
        exact .inr ⟨name, Model.initialOf_producer read ▸ declared⟩
  | formula _ _ _ _ ih => exact ih member

theorem registrable_of_plan {spec : Specification K} {strength : Strength} {plan : Plan} {m : Model K}
    {r after : Recorder K} (planned : planOf spec = .ok plan) (run : Model.Builds spec strength plan.names {} r m after) :
    spec.registrable = m.quantities.entries ∧ spec.registrable.length = spec.quantities.size ∧
      Model.Registers strength 0 spec.registrable r after := by
  obtain ⟨split, registers⟩ := registrable_of_builds planned (List.append_nil _).symm run
  rw [List.filterMap_nil, List.append_nil] at split
  have every : spec.registrable.length = spec.quantities.names.length := by
    refine List.filterMap_length_eq_length.mpr fun name declared => ?_
    obtain ⟨term, found⟩ := (NameTable.mem_names_iff _ _).mp declared
    have inPlan : name ∈ plan.names := (mem_planOf_iff planned name).mpr (.inl declared)
    obtain ⟨read, initial⟩ := run.initialOf inPlan found
    rw [Specification.registrable?_of_notArray found (Model.initialOf_ok initial).2]
    rfl
  refine ⟨split, ?_, split ▸ registers⟩
  rw [every, NameTable.names, List.length_map, NameTable.size]

/-- How many quantities a build registers before it ends with an answer: all but the last of them are accepted, and if
that one is refused, the build fails with it. -/
structure Registered (spec : Specification K) (strength : Strength) (r : Recorder K) (k : Nat) {α : Type}
    (answer : Except (BuildError K) α) : Prop where
  bound : k ≤ spec.registrable.length
  accepted : ∀ id q, id + 1 < k → spec.registrable[id]? = some q → (r.register id q.value strength).1 = .ok ()
  refused : ∀ id q e, id + 1 = k → spec.registrable[id]? = some q → (r.register id q.value strength).1 = .error e →
    answer = .error (.solver e)
  complete : ∀ value, answer = .ok value → k = spec.quantities.size

namespace Registered
variable {α β : Type} {spec : Specification K} {strength : Strength} {r : Recorder K} {k : Nat}

theorem of_ok {value : α} (registered : Registered spec strength r k (.ok value)) (answer : Except (BuildError K) β) :
    Registered spec strength r k answer where
  bound := registered.bound
  accepted := registered.accepted
  refused id q e last found refused := nomatch registered.refused id q e last found refused
  complete _ _ := registered.complete value rfl

theorem of_error {e : BuildError K} (registered : Registered spec strength r k (.error e : Except _ α)) :
    Registered spec strength r k (.error e : Except _ β) where
  bound := registered.bound
  accepted := registered.accepted
  refused id q e last found refused := by
    cases registered.refused id q e last found refused
    rfl
  complete _ same := nomatch same

theorem of_accepts {answer : Except (BuildError K) α} {quantities rest : List (Quantity K)}
    (split : spec.registrable = quantities ++ rest) (accepts : r.Accepts strength 0 quantities)
    (complete : ∀ value, answer = .ok value → quantities.length = spec.quantities.size) :
    Registered spec strength r quantities.length answer where
  bound := by
    rw [split, List.length_append]
    exact Nat.le_add_right _ _
  accepted id q before found := by
    rw [split, List.getElem?_append_left (Nat.lt_of_succ_lt before)] at found
    have accepted := accepts id q found
    rwa [Nat.zero_add] at accepted
  refused id q e last found refused := by
    rw [split, List.getElem?_append_left (last ▸ Nat.lt_succ_self id)] at found
    have accepted := accepts id q found
    rw [Nat.zero_add, refused] at accepted
    cases accepted
  complete := complete

end Registered

theorem build_registered {spec : Specification K} {plan : Plan} (planned : planOf spec = .ok plan)
    {options : BuildOptions} {r after : Recorder K} {answer : Except (BuildError K) (Model K)}
    (built : Model.build plan spec.quantities spec.formulas spec.prebuilt options r = (answer, after)) :
    ∃ k, Registered spec options.editStrength r k answer ∧
      after.calls = r.calls ++ Recorder.registrations options.editStrength 0 (spec.registrable.take k) := by
  have unique : plan.names.Nodup := Plan.order_nodup (planOf_ok_iff.mp planned).2
  cases answer with
  | ok m =>
    have run := Model.addNames_builds unique (fun _ _ => rfl) built
    obtain ⟨_, every, registers⟩ := registrable_of_plan planned run
    refine ⟨_, .of_accepts (List.append_nil _).symm registers.accepted fun _ _ => every, ?_⟩
    rw [registers.calls, List.take_length]
  | error e =>
    obtain ⟨front, name, back, m, before, names, run, stops⟩ := Model.addNames_error unique (fun _ _ => rfl) built
    obtain ⟨split, registers⟩ := registrable_of_builds planned names run
    cases stops with
    | compile e =>
      refine ⟨_, .of_accepts split registers.accepted fun _ same => (nomatch same), ?_⟩
      rw [registers.calls, split, List.take_left]
    | @solver term initial producer e _ declared read refused =>
      obtain ⟨rfl, notArray⟩ := Model.initialOf_ok read
      rw [List.filterMap_cons_some (Specification.registrable?_of_notArray declared notArray)] at split
      have known := registers.later m.quantities.entries.length (Nat.le_of_eq (Nat.zero_add _))
      refine ⟨m.quantities.entries.length + 1, ⟨?_, ?_, ?_, fun _ same => (nomatch same)⟩, ?_⟩
      · rw [split, List.length_append, List.length_cons]
        omega
      · intro id q earlier found
        have below : id < m.quantities.entries.length := Nat.lt_of_succ_lt_succ earlier
        rw [split, List.getElem?_append_left below] at found
        have accepted := registers.accepted id q found
        rwa [Nat.zero_add] at accepted
      · intro id q other last found again
        obtain rfl : id = m.quantities.entries.length := Nat.succ.inj last
        rw [split, List.getElem?_append_right (Nat.le_refl _), Nat.sub_self] at found
        cases found
        have here : (before.register m.quantities.entries.length term.initial options.editStrength).1 = .error e :=
          congrArg Prod.fst refused
        rw [Recorder.register_congr known, again] at here
        cases here
        rfl
      · have taken : spec.registrable.take (m.quantities.entries.length + 1) =
            m.quantities.entries ++ [⟨name, term.initial⟩] := by
          rw [split, List.take_append]
          simp
        rw [Recorder.calls_of_register refused, registers.calls, taken, Recorder.registrations_concat, List.append_assoc]
        rfl

/-- Every quantity, formula and rule of a specification compiles. -/
def Compiles (spec : Specification K) : Prop :=
  ∃ plan m rules, planOf spec = .ok plan ∧ Model.Compiles spec plan.names {} m ∧
    Rule.compileAll (m.scope spec.prebuilt) spec.rules = .ok rules

/-- A build comes to its rules exactly when everything compiles and every quantity is accepted. -/
theorem compiles_and_accepts_iff {spec : Specification K} {options : BuildOptions} {r : Recorder K} :
    Compiles spec ∧ r.Accepts options.editStrength 0 spec.registrable ↔
      ∃ plan m after rules, planOf spec = .ok plan ∧
        Model.build plan spec.quantities spec.formulas spec.prebuilt options r = (.ok m, after) ∧
        Rule.compileAll (m.scope spec.prebuilt) spec.rules = .ok rules := by
  constructor
  · rintro ⟨⟨plan, m, rules, planned, names, compiled⟩, accepts⟩
    have unique : plan.names.Nodup := Plan.order_nodup (planOf_ok_iff.mp planned).2
    rw [← filterMap_plan planned, filterMap_compiles names] at accepts
    obtain ⟨after, run⟩ := names.builds accepts
    exact ⟨plan, m, after, rules, planned, Model.addNames_of_builds unique (fun _ _ => rfl) run, compiled⟩
  · rintro ⟨plan, m, after, rules, planned, built, compiled⟩
    have unique : plan.names.Nodup := Plan.order_nodup (planOf_ok_iff.mp planned).2
    have run := Model.addNames_builds unique (fun _ _ => rfl) built
    exact ⟨⟨plan, m, rules, planned, run.compiles, compiled⟩, (registrable_of_plan planned run).2.2.accepted⟩

/-- The calls that give rules to a solver. -/
def batchOf (options : BuildOptions) (rules : List (Rule K)) : List (Call K) :=
  if options.registerRules && !rules.isEmpty then [.addRules rules.length] else []

omit [Scalar K] in
theorem submit_recorded (options : BuildOptions) (rules : List (Rule K)) (r : Recorder K) :
    ∃ kept, submit options rules r = (.ok (), { r with calls := r.calls ++ batchOf options rules, rules := kept }) := by
  unfold submit batchOf
  split
  · exact ⟨r.rules ++ rules, rfl⟩
  · exact ⟨r.rules, by rw [List.append_nil]⟩

/-- All the ways in which a build can end. -/
inductive Ends (spec : Specification K) (options : BuildOptions) (r : Recorder K) :
    Reply (BuildError K) (Compilation K) (Recorder K) → Prop where
  | unplanned {e : CompileError K} (failed : planOf spec = .error e) : Ends spec options r (.error (.compile e), r)
  | unbuilt {plan : Plan} {e : BuildError K} {after : Recorder K} (planned : planOf spec = .ok plan)
      (failed : Model.build plan spec.quantities spec.formulas spec.prebuilt options r = (.error e, after)) :
      Ends spec options r (.error e, after)
  | unruled {plan : Plan} {m : Model K} {after : Recorder K} {e : CompileError K} (planned : planOf spec = .ok plan)
      (built : Model.build plan spec.quantities spec.formulas spec.prebuilt options r = (.ok m, after))
      (failed : Rule.compileAll (m.scope spec.prebuilt) spec.rules = .error e) :
      Ends spec options r (.error (.compile e), after)
  | complete {plan : Plan} {m : Model K} {after : Recorder K} {rules kept : List (Rule K)}
      (planned : planOf spec = .ok plan)
      (built : Model.build plan spec.quantities spec.formulas spec.prebuilt options r = (.ok m, after))
      (compiled : Rule.compileAll (m.scope spec.prebuilt) spec.rules = .ok rules) :
      Ends spec options r (.ok ⟨m, rules, plan, spec.prebuilt⟩,
        { after with calls := after.calls ++ batchOf options rules, rules := kept })

theorem compile_ends (spec : Specification K) (options : BuildOptions) (r : Recorder K) :
    Ends spec options r (compile spec options r) := by
  unfold compile
  split
  · rename_i failed
    exact .unplanned failed
  · rename_i plan planned
    split
    · rename_i failed
      exact .unbuilt planned failed
    · rename_i m after built
      split
      · rename_i failed
        exact .unruled planned built failed
      · rename_i rules compiled
        obtain ⟨kept, submitted⟩ := submit_recorded options rules after
        rw [submitted]
        exact .complete planned built compiled

/-- Without the rules, or with them, a build comes to the same end. -/
theorem compile_switched (spec : Specification K) (options : BuildOptions) (r : Recorder K) (wanted : Bool) :
    let other := compile spec { options with registerRules := wanted } r
    other.1 = (compile spec options r).1 ∧
      other.2 = { (compile spec options r).2 with calls := other.2.calls, rules := other.2.rules } := by
  unfold compile
  cases planOf spec with
  | error e => exact ⟨rfl, rfl⟩
  | ok plan =>
    have same : Model.build plan spec.quantities spec.formulas spec.prebuilt { options with registerRules := wanted } r =
        Model.build plan spec.quantities spec.formulas spec.prebuilt options r := rfl
    dsimp only
    rw [same]
    cases Model.build plan spec.quantities spec.formulas spec.prebuilt options r with
    | mk answer after =>
      cases answer with
      | error e => exact ⟨rfl, rfl⟩
      | ok m =>
        dsimp only
        cases Rule.compileAll (m.scope spec.prebuilt) spec.rules with
        | error e => exact ⟨rfl, rfl⟩
        | ok rules =>
          obtain ⟨_, submitted⟩ := submit_recorded options rules after
          obtain ⟨_, otherwise⟩ := submit_recorded { options with registerRules := wanted } rules after
          simp only [submitted, otherwise]
          exact ⟨trivial, trivial⟩

/-- What a build asks of a recorder, and what its answer has to do with it: it registers the first `k` of the
quantities that can be registered, and then gives the rules to the recorder in one batch or not at all. -/
structure Asks (spec : Specification K) (options : BuildOptions) (r : Recorder K) (k : Nat) (batch : List (Call K)) :
    Prop where
  calls : (compile spec options r).2.calls =
    r.calls ++ Recorder.registrations options.editStrength 0 (spec.registrable.take k) ++ batch
  registered : Registered spec options.editStrength r k (compile spec options r).1
  /-- A refused registration is the last call. -/
  refused_last : ∀ id q e, id + 1 = k → spec.registrable[id]? = some q →
    (r.register id q.value options.editStrength).1 = .error e → batch = []
  batch_eq : batch = [] ∨ batch = [.addRules spec.rules.length]
  batch_iff : batch ≠ [] ↔ (Compiles spec ∧ r.Accepts options.editStrength 0 spec.registrable) ∧
    options.registerRules = true ∧ spec.rules ≠ []
  /-- The switch changes nothing but the call that it is about and the rules that come with it. -/
  switched : ∀ wanted, let other := compile spec { options with registerRules := wanted } r
    other.1 = (compile spec options r).1 ∧
      other.2 = { (compile spec options r).2 with calls := other.2.calls, rules := other.2.rules }
  uncalled : ∀ c, (compile spec options r).1 = .ok c → ∀ id source, (id, source) ∈ c.model.producers →
    ∃ name, spec.quantities.get? name = some (.producer source)
  /-- With any other producers, the same calls come to the same end, and those producers are in it as they were
  declared: no answer of a producer is asked for. -/
  indifferent : ∀ f, let other := compile (spec.mapProducers f) options r
    Alike other.1 ((compile spec options r).1.map (mapProducers f)) ∧ other.2 = (compile spec options r).2

theorem asks_of_failed {spec : Specification K} {options : BuildOptions} {r after : Recorder K} {k : Nat}
    {e : BuildError K} (ends : compile spec options r = (.error e, after))
    (calls : after.calls = r.calls ++ Recorder.registrations options.editStrength 0 (spec.registrable.take k))
    (registered : Registered spec options.editStrength r k (.error e : Except _ (Compilation K)))
    (stopped : ¬ (Compiles spec ∧ r.Accepts options.editStrength 0 spec.registrable)) : Asks spec options r k [] where
  calls := by rw [ends, calls, List.append_nil]
  registered := by rwa [ends]
  refused_last _ _ _ _ _ _ := rfl
  batch_eq := .inl rfl
  batch_iff := iff_of_false (fun batch => batch rfl) fun asked => stopped asked.1
  switched := compile_switched spec options r
  uncalled c ok := by
    rw [ends] at ok
    cases ok
  indifferent f := compile_mapProducers f spec options r

theorem asks_of_complete {spec : Specification K} {options : BuildOptions} {r after : Recorder K} {plan : Plan}
    {m : Model K} {rules kept : List (Rule K)} (planned : planOf spec = .ok plan)
    (built : Model.build plan spec.quantities spec.formulas spec.prebuilt options r = (.ok m, after))
    (compiled : Rule.compileAll (m.scope spec.prebuilt) spec.rules = .ok rules)
    (ends : compile spec options r = (.ok ⟨m, rules, plan, spec.prebuilt⟩,
      { after with calls := after.calls ++ batchOf options rules, rules := kept })) :
    ∃ k, Asks spec options r k (batchOf options rules) := by
  obtain ⟨k, registered, calls⟩ := build_registered planned built
  have count : rules.length = spec.rules.length := (Rule.compileAll_ok compiled).length_eq.symm
  have all := compiles_and_accepts_iff.mpr ⟨plan, m, after, rules, planned, built, compiled⟩
  refine ⟨k, ?_, ?_, ?_, ?_, ?_, compile_switched spec options r, ?_, fun f => compile_mapProducers f spec options r⟩
  · rw [ends, ← calls]
  · rw [ends]
    exact registered.of_ok _
  · intro id q e last found refused
    cases registered.refused id q e last found refused
  · unfold batchOf
    split
    · exact .inr (by rw [count])
    · exact .inl rfl
  · have given : batchOf options rules ≠ [] ↔ options.registerRules = true ∧ rules ≠ [] := by
      unfold batchOf
      split <;> simp_all
    rw [given, ← List.length_pos_iff, ← List.length_pos_iff, count]
    exact (and_iff_right all).symm
  · intro c ok id source member
    rw [ends] at ok
    cases ok
    have unique : plan.names.Nodup := Plan.order_nodup (planOf_ok_iff.mp planned).2
    have run := Model.addNames_builds unique (fun _ _ => rfl) built
    exact (declared_of_producer run.compiles member).resolve_left List.not_mem_nil

/-- The calls of every build, successful or not: registrations in order, then at most one batch of rules, and nothing
else. -/
theorem compile_calls (spec : Specification K) (options : BuildOptions) (r : Recorder K) :
    ∃ k batch, Asks spec options r k batch := by
  have ends := compile_ends spec options r
  generalize reply : compile spec options r = outcome at ends
  cases ends with
  | @unplanned e failed =>
    have nothing : Registered spec options.editStrength r 0 (.error (.compile e) : Except _ (Compilation K)) := by
      refine ⟨Nat.zero_le _, ?_, ?_, ?_⟩
      · intro _ _ before
        cases before
      · intro _ _ _ last
        cases last
      · intro _ same
        cases same
    refine ⟨0, [], asks_of_failed reply (by simp [Recorder.registrations]) nothing fun all => ?_⟩
    obtain ⟨plan, _, _, _, planned, _⟩ := compiles_and_accepts_iff.mp all
    rw [failed] at planned
    cases planned
  | @unbuilt plan e after planned failed =>
    obtain ⟨k, registered, calls⟩ := build_registered planned failed
    refine ⟨k, [], asks_of_failed reply calls registered.of_error fun all => ?_⟩
    obtain ⟨other, _, _, _, again, built, _⟩ := compiles_and_accepts_iff.mp all
    obtain rfl : plan = other := Except.ok.inj (planned.symm.trans again)
    rw [failed] at built
    cases built
  | @unruled plan m after e planned built failed =>
    obtain ⟨k, registered, calls⟩ := build_registered planned built
    refine ⟨k, [], asks_of_failed reply calls (registered.of_ok _) fun all => ?_⟩
    obtain ⟨other, _, _, _, again, rebuilt, compiled⟩ := compiles_and_accepts_iff.mp all
    obtain rfl : plan = other := Except.ok.inj (planned.symm.trans again)
    rw [built] at rebuilt
    cases rebuilt
    rw [failed] at compiled
    cases compiled
  | complete planned built compiled =>
    obtain ⟨k, asks⟩ := asks_of_complete planned built compiled reply
    exact ⟨k, _, asks⟩

end Compilation
end ReactiveLayout
