import ReactiveLayout.Proofs.Refusal
import ReactiveLayout.Proofs.Registration
import ReactiveLayout.Proofs.RuleGrammar

/-! A missing reference is reported exactly when a name is missing. What compiles has all its references bound, and a
reference that is found missing is not bound at that moment of the build. A name of the specification always is: the
plan has built it before, and a definition that cannot be built ends the build with its own error. -/
namespace ReactiveLayout
variable {K : Type}

namespace Term

mutual

/-- No built value stands in the term, at any depth. -/
def isRaw : Term K → Bool
  | .built _ => false
  | .array elements => allRaw elements
  | .number _ | .descriptor _ | .reference _ | .token _ | .producer _ => true

def allRaw : List (Term K) → Bool
  | [] => true
  | term :: rest => term.isRaw && allRaw rest

end

theorem mem_referencesOfAll_iff {name : String} {elements : List (Term K)} :
    name ∈ referencesOfAll elements ↔ ∃ (i : Nat) (term : Term K), elements[i]? = some term ∧ name ∈ term.references := by
  induction elements with
  | nil => simp [referencesOfAll]
  | cons first rest ih =>
    rw [referencesOfAll, List.mem_append, ih]
    constructor
    · rintro (here | ⟨i, term, found, refers⟩)
      · exact ⟨0, first, rfl, here⟩
      · exact ⟨i + 1, term, found, refers⟩
    · rintro ⟨i, term, found, refers⟩
      cases i with
      | zero =>
        cases found
        exact .inl refers
      | succ i => exact .inr ⟨i, term, found, refers⟩

end Term

namespace Specification

/-- A formula array or a rule refers to the name, at some depth. -/
inductive Refers (spec : Specification K) (name : String) : Prop where
  | formula {owner : String} {elements : List (Term K)} (declared : spec.formulas.get? owner = some (.array elements))
      (refers : name ∈ Term.referencesOfAll elements)
  | rule {tuple : List (Term K)} (declared : tuple ∈ spec.rules) (refers : name ∈ Term.referencesOfAll tuple)

theorem refers_iff {spec : Specification K} {name : String} : spec.Refers name ↔
    (∃ owner ∈ spec.formulas.names, name ∈ Term.referencesOfAll ((Plan.arrayOf? spec.formulas owner).getD [])) ∨
      ∃ tuple ∈ spec.rules, name ∈ Term.referencesOfAll tuple := by
  constructor
  · intro refers
    cases refers with
    | @formula owner elements declared refers =>
      refine .inl ⟨owner, NameTable.mem_names_of_get? declared, ?_⟩
      rwa [Plan.arrayOf?_eq_some_iff.mpr declared]
    | rule declared refers => exact .inr ⟨_, declared, refers⟩
  · rintro (⟨owner, _, refers⟩ | ⟨tuple, declared, refers⟩)
    · cases array : Plan.arrayOf? spec.formulas owner with
      | none =>
        rw [array] at refers
        cases refers
      | some elements =>
        rw [array] at refers
        exact .formula (Plan.arrayOf?_eq_some_iff.mp array) refers
    · exact .rule declared refers

/-- Found out by looking through all formulas and all rules. -/
instance (spec : Specification K) (name : String) : Decidable (spec.Refers name) := decidable_of_iff' _ refers_iff

/-- The name is declared as a quantity or as a formula, or an expression of that name existed before. -/
def Knows (spec : Specification K) (name : String) : Prop :=
  name ∈ spec.quantities.names ∨ name ∈ spec.formulas.names ∨ name ∈ spec.prebuilt.names

/-- No built value stands in a formula or in a rule. As a quantity none is taken anyway. -/
def isRaw (spec : Specification K) : Bool :=
  (spec.formulas.entries.all fun entry => entry.2.isRaw) && spec.rules.all Term.allRaw

theorem isRaw_formula {spec : Specification K} (raw : spec.isRaw = true) {name : String} {term : Term K}
    (declared : spec.formulas.get? name = some term) : term.isRaw = true :=
  List.all_eq_true.mp (Bool.and_eq_true_iff.mp raw).1 _ (NameTable.mem_of_get? declared)

theorem isRaw_rule {spec : Specification K} (raw : spec.isRaw = true) {tuple : List (Term K)}
    (declared : tuple ∈ spec.rules) : Term.allRaw tuple = true :=
  List.all_eq_true.mp (Bool.and_eq_true_iff.mp raw).2 _ declared

end Specification

variable [Scalar K]

theorem Scope.binding?_eq_none_iff {s : Scope K} {name : String} : s.binding? name = none ↔
    name ∉ s.quantities.names ∧ name ∉ s.formulas.names ∧ name ∉ s.prebuilt.names := by
  rw [← QuantityTable.id?_eq_none_iff, ← NameTable.get?_eq_none_iff, ← NameTable.get?_eq_none_iff, binding?]
  cases s.quantities.id? name with
  | some id => simp
  | none =>
    cases s.formulas.get? name with
    | some e => simp
    | none => simp

namespace Formula
open Term

variable {owner : String} {scope : Scope K} {name : String}

/-- The references of the language are bound. -/
theorem bound_of_language :
    (∀ term x, Operand scope term x → ∀ name ∈ term.references, scope.binding? name ≠ none) ∧
      ∀ elements e, Sentence scope elements e → ∀ name ∈ referencesOfAll elements, scope.binding? name ≠ none := by
  apply language_induction
  · intro value _ name refers
    cases refers
  · intro bound e found name refers
    obtain rfl : name = bound := by simpa [references] using refers
    simp [found]
  · intro inner e all name refers
    rw [references] at refers
    exact all name refers
  · intro primitive e _ name refers
    cases refers
  · intro elements start steps e stand _
    generalize woven start steps = pieces at stand
    induction stand with
    | nil =>
      intro name refers
      cases refers
    | cons first _ ih =>
      intro name refers
      rcases List.mem_append.mp refers with here | later
      · cases first with
        | operand bound => exact bound name here
        | operator op => cases here
      · exact ih name later

theorem reduceFrom_ne_missing (acc : Affine K) (pieces : List (Piece K)) :
    reduceFrom owner acc pieces ≠ .error (.missingReference name) := by
  fun_induction reduceFrom owner acc pieces with
  | case3 acc op operand rest next applied ih => exact ih
  | case1 | case2 | case4 | case5 => simp

theorem reduce_ne_missing (pieces : List (Piece K)) : reduce owner pieces ≠ .error (.missingReference name) := by
  cases pieces with
  | nil => simp [reduce]
  | cons first rest =>
    cases first with
    | operator op => simp [reduce]
    | operand e => exact reduceFrom_ne_missing e rest

theorem lookup_missing {other : String} (failed : scope.lookup other = .error (.missingReference name)) :
    name = other ∧ scope.binding? name = none := by
  unfold Scope.lookup at failed
  split at failed
  · cases failed
  · rename_i unbound
    cases failed
    exact ⟨rfl, unbound⟩

omit [Scalar K] in
theorem map_operand_error_iff {answer : Except (CompileError K) (Affine K)} {e : CompileError K} :
    answer.map Piece.operand = .error e ↔ answer = .error e := by
  cases answer <;> simp [Except.map]

mutual

/-- A missing reference of a piece is a reference of its term that is not bound. -/
theorem missing_of_piece : ∀ (term : Term K) {previous : Option (Piece K)}, term.isRaw = true →
    piece owner scope previous term = .error (.missingReference name) →
      name ∈ term.references ∧ scope.binding? name = none
  | .number value, _, _, failed => by
    rw [piece] at failed
    split at failed <;> cases failed
  | .descriptor value, _, _, failed => by
    rw [piece] at failed
    split at failed <;> cases failed
  | .producer source, _, _, failed => by
    rw [piece] at failed
    cases failed
  | .token word, previous, _, failed => by
    rw [piece] at failed
    cases word with
    | operator op =>
      simp only [tokenPiece, operatorPiece] at failed
      split at failed <;> cases failed
    | comparator | strict | strength => cases failed
  | .reference other, _, _, failed => by
    rw [piece, map_operand_error_iff] at failed
    obtain ⟨rfl, unbound⟩ := lookup_missing failed
    exact ⟨by simp [references], unbound⟩
  | .built primitive, _, raw, _ => by
    cases raw
  | .array elements, _, raw, failed => by
    rw [piece] at failed
    split at failed
    · rename_i cause scanned
      cases failed
      exact missing_of_scan elements raw scanned
    · rw [map_operand_error_iff] at failed
      exact absurd failed (reduce_ne_missing _)

theorem missing_of_scan : ∀ (elements : List (Term K)) {previous : Option (Piece K)}, allRaw elements = true →
    scan owner scope previous elements = .error (.missingReference name) →
      name ∈ referencesOfAll elements ∧ scope.binding? name = none
  | [], _, _, failed => by
    rw [scan] at failed
    cases failed
  | term :: rest, _, raw, failed => by
    obtain ⟨here, later⟩ := Bool.and_eq_true_iff.mp raw
    rw [scan] at failed
    rw [referencesOfAll, List.mem_append]
    split at failed
    · rename_i cause read
      cases failed
      obtain ⟨refers, unbound⟩ := missing_of_piece term here read
      exact ⟨.inl refers, unbound⟩
    · split at failed
      · rename_i cause run
        cases failed
        obtain ⟨refers, unbound⟩ := missing_of_scan rest later run
        exact ⟨.inr refers, unbound⟩
      · cases failed

end

theorem missing_of_compile {elements : List (Term K)} (raw : allRaw elements = true)
    (failed : compile owner elements scope = .error (.missingReference name)) :
    name ∈ referencesOfAll elements ∧ scope.binding? name = none := by
  unfold compile at failed
  split at failed
  · rename_i cause scanned
    cases failed
    exact missing_of_scan elements raw scanned
  · exact absurd failed (reduce_ne_missing _)

end Formula

namespace Rule
open Term

variable {scope : Scope K} {name : String}

/-- The references of a rule that is accepted stand in its operands, and are bound. -/
theorem bound_of_writes {tuple : List (Term K)} {rule : Rule K} (writes : Writes scope tuple rule)
    (refers : name ∈ referencesOfAll tuple) : scope.binding? name ≠ none := by
  obtain ⟨i, term, found, refers⟩ := mem_referencesOfAll_iff.mp refers
  have noStrength {strength : Strength} (written : StrengthAt (some term) strength) : name ∉ term.references := by
    cases written <;> simp [references]
  have noWeight {weight : K} (written : WeightAt (some term) weight) : name ∉ term.references := by
    cases written
    simp [references]
  cases writes with
  | relation length first _ leftOperand second third rightOperand fourth fifth =>
    match i with
    | 0 =>
      cases first.symm.trans found
      exact Formula.bound_of_language.1 _ _ leftOperand name refers
    | 1 =>
      cases second.symm.trans found
      cases refers
    | 2 =>
      cases third.symm.trans found
      exact Formula.bound_of_language.1 _ _ rightOperand name refers
    | 3 => exact absurd refers (noStrength (found ▸ fourth))
    | 4 => exact absurd refers (noWeight (found ▸ fifth))
    | i + 5 =>
      have below := (List.getElem?_eq_some_iff.mp found).1
      omega
  | stay length first _ operand second third =>
    match i with
    | 0 =>
      cases first.symm.trans found
      exact Formula.bound_of_language.1 _ _ operand name refers
    | 1 => exact absurd refers (noStrength (found ▸ second))
    | 2 => exact absurd refers (noWeight (found ▸ third))
    | i + 3 =>
      have below := (List.getElem?_eq_some_iff.mp found).1
      omega

theorem missing_of_operand {term : Term K} (raw : term.isRaw = true)
    (failed : operand scope term = .error (.missingReference name)) :
    name ∈ term.references ∧ scope.binding? name = none := by
  cases term with
  | number value | descriptor value =>
    by_cases finite : Scalar.isFinite value = true <;> simp [operand, classify, kind?, finite] at failed
  | reference other =>
    obtain ⟨rfl, unbound⟩ := Formula.lookup_missing failed
    exact ⟨by simp [references], unbound⟩
  | array elements => exact Formula.missing_of_compile raw failed
  | built => cases raw
  | token | producer => cases failed

omit [Scalar K] in
theorem strengthOf_ne_missing (emphasis : List (Term K)) : strengthOf emphasis ≠ .error (.missingReference name) := by
  unfold strengthOf
  split <;> simp

theorem weightOf_ne_missing (emphasis : List (Term K)) : weightOf emphasis ≠ .error (.missingReference name) := by
  unfold weightOf
  split
  · simp
  · split <;> simp
  · simp

theorem withEmphasis_ne_missing (demand : Demand K) (emphasis : List (Term K)) :
    withEmphasis demand emphasis ≠ .error (.missingReference name) := by
  unfold withEmphasis
  intro failed
  split at failed
  · rename_i strength
    cases failed
    exact strengthOf_ne_missing emphasis strength
  · split at failed
    · rename_i weight
      cases failed
      exact weightOf_ne_missing emphasis.tail weight
    · cases failed

theorem missing_of_stay {left : Term K} {emphasis : List (Term K)} (raw : left.isRaw = true)
    (failed : stay scope left emphasis = .error (.missingReference name)) :
    name ∈ left.references ∧ scope.binding? name = none := by
  unfold stay at failed
  dsimp only at failed
  split at failed
  · cases failed
  · split at failed
    · rename_i first
      cases failed
      exact missing_of_operand raw first
    · exact absurd failed (withEmphasis_ne_missing _ _)

theorem missing_of_relation {left : Term K} {comparator : Comparator} {rest : List (Term K)}
    (rawLeft : left.isRaw = true) (rawRest : allRaw rest = true)
    (failed : relation scope left comparator rest = .error (.missingReference name)) :
    (name ∈ left.references ∨ name ∈ referencesOfAll rest) ∧ scope.binding? name = none := by
  unfold relation at failed
  dsimp only at failed
  split at failed
  · cases failed
  · split at failed
    · cases failed
    · split at failed
      · rename_i first
        cases failed
        obtain ⟨refers, unbound⟩ := missing_of_operand rawLeft first
        exact ⟨.inl refers, unbound⟩
      · split at failed
        · rename_i third
          cases failed
          obtain ⟨refers, unbound⟩ := missing_of_operand (Bool.and_eq_true_iff.mp rawRest).1 third
          exact ⟨.inr (List.mem_append_left _ refers), unbound⟩
        · exact absurd failed (withEmphasis_ne_missing _ _)

theorem missing_of_compile {tuple : List (Term K)} (raw : allRaw tuple = true)
    (failed : compile scope tuple = .error (.missingReference name)) :
    name ∈ referencesOfAll tuple ∧ scope.binding? name = none := by
  cases tuple with
  | nil => cases failed
  | cons left rest =>
    obtain ⟨rawLeft, rawRest⟩ := Bool.and_eq_true_iff.mp raw
    unfold compile at failed
    dsimp only at failed
    split at failed
    · cases failed
    · split at failed
      · cases failed
      · obtain ⟨refers, unbound⟩ := missing_of_relation rawLeft (Bool.and_eq_true_iff.mp rawRest).2 failed
        exact ⟨by simpa [referencesOfAll, references] using refers, unbound⟩
      · cases failed
      · obtain ⟨refers, unbound⟩ := missing_of_stay rawLeft failed
        exact ⟨List.mem_append_left _ refers, unbound⟩

theorem compileAll_error {tuples : List (List (Term K))} {e : CompileError K}
    (failed : compileAll scope tuples = .error e) : ∃ tuple ∈ tuples, compile scope tuple = .error e := by
  induction tuples with
  | nil => cases failed
  | cons tuple rest ih =>
    rw [compileAll] at failed
    split at failed
    · rename_i first
      cases failed
      exact ⟨tuple, List.mem_cons_self, first⟩
    · split at failed
      · rename_i later
        cases failed
        obtain ⟨other, member, refused⟩ := ih later
        exact ⟨other, List.mem_cons_of_mem _ member, refused⟩
      · cases failed

end Rule

namespace Model
open Term

theorem missing_of_expressionOf {name owner : String} {term : Term K} {scope : Scope K} (raw : term.isRaw = true)
    (failed : expressionOf owner term scope = .error (.missingReference name)) :
    ∃ elements, term = .array elements ∧ name ∈ referencesOfAll elements ∧ scope.binding? name = none := by
  cases term with
  | array elements => exact ⟨elements, rfl, Formula.missing_of_compile raw failed⟩
  | number value | descriptor value =>
    by_cases finite : Scalar.isFinite value = true <;> simp [expressionOf, classify, kind?, finite] at failed
  | built => cases raw
  | reference | token | producer => cases failed

theorem initialOf_ne_missing {name owner : String} {term : Term K} :
    initialOf owner term ≠ .error (.missingReference name) := by
  cases term with
  | number value | descriptor value =>
    by_cases finite : Scalar.isFinite value = true <;> simp [initialOf, classify, kind?, finite]
  | reference | token | producer | array | built => simp [initialOf, classify, kind?]

variable {σ : Type} [Solver σ K]

/-- A name of the tables that a build stops at with a missing reference is that of a formula array. -/
theorem missing_of_addName {strength : Strength} {quantities formulas : NameTable (Term K)}
    {prebuilt : NameTable (Affine K)} {name owner : String} {m : Model K} {solver after : σ}
    (raw : ∀ term, formulas.get? owner = some term → term.isRaw = true)
    (planned : owner ∈ quantities.names ∨ owner ∈ formulas.names)
    (failed : addName strength quantities formulas prebuilt owner m solver =
      (.error (.compile (.missingReference name)), after)) :
    ∃ elements, formulas.get? owner = some (.array elements) ∧ name ∈ referencesOfAll elements ∧
      (m.scope prebuilt).binding? name = none := by
  unfold addName at failed
  split at failed
  · unfold addQuantity at failed
    split at failed
    · rename_i cause read
      cases failed
      exact absurd read initialOf_ne_missing
    · split at failed
      · cases failed
      · split at failed <;> cases failed
  · rename_i notQuantity
    split at failed
    · rename_i notFormula
      rcases planned with quantity | formula
      · exact absurd quantity ((NameTable.get?_eq_none_iff _ _).mp notQuantity)
      · exact absurd formula ((NameTable.get?_eq_none_iff _ _).mp notFormula)
    · rename_i term declared
      split at failed
      · rename_i cause refused
        cases failed
        obtain ⟨elements, rfl, refers, unbound⟩ := missing_of_expressionOf (raw term declared) refused
        exact ⟨elements, declared, refers, unbound⟩
      · cases failed

end Model

namespace Compilation
variable {σ : Type} [Solver σ K] {spec : Specification K}

omit [Solver σ K] in
theorem planOf_ne_missing {name : String} : planOf spec ≠ .error (.missingReference name) := by
  unfold planOf
  intro failed
  split at failed
  · cases failed
  · exact Plan.order_blames failed

omit [Solver σ K] in
/-- When its turn comes, a planned name is in one of the two tables: names in front of it take only themselves out. -/
theorem planned_declared {plan : Plan} (planned : planOf spec = .ok plan) {front back : List String} {name : String}
    (split : plan.names = front ++ name :: back) :
    name ∈ (front.foldl NameTable.erase spec.quantities).names ∨ name ∈ spec.formulas.names := by
  have unique := Plan.order_nodup (planOf_ok_iff.mp planned).2
  rw [split] at unique
  have absent : name ∉ front := by
    intro twice
    exact (List.nodup_append.mp unique).2.2 name twice name List.mem_cons_self rfl
  have member : name ∈ plan.names := by
    simp [split]
  rw [NameTable.mem_names_iff, NameTable.get?_foldl_erase _ absent, ← NameTable.mem_names_iff]
  exact (mem_planOf_iff planned name).mp member

/-- A name that is not bound behind the build of its definers is not known to the specification. -/
theorem not_knows_of_unbound {strength : Strength} {names : List String} {m : Model K} {solver after : σ}
    {name : String} (run : Model.Builds spec strength names {} solver m after)
    (unbound : (m.scope spec.prebuilt).binding? name = none)
    (built : name ∈ spec.quantities.names ∨ name ∈ spec.formulas.names → name ∈ names) : ¬ spec.Knows name := by
  obtain ⟨notQuantity, notFormula, notPrebuilt⟩ := Scope.binding?_eq_none_iff.mp unbound
  have notBuilt : name ∉ names := by
    intro member
    rcases (run.mem_names_iff name).mpr (.inl member) with quantity | formula
    · exact notQuantity quantity
    · exact notFormula formula
  rintro (quantity | formula | prebuilt)
  · exact notBuilt (built (.inl quantity))
  · exact notBuilt (built (.inr formula))
  · exact notPrebuilt prebuilt

theorem missing_of_build {options : BuildOptions} {plan : Plan} {solver after : σ} {name : String} (raw : spec.isRaw = true)
    (planned : planOf spec = .ok plan)
    (failed : Model.build plan spec.quantities spec.formulas spec.prebuilt options solver =
      (.error (.compile (.missingReference name)), after)) : spec.Refers name ∧ ¬ spec.Knows name := by
  obtain ⟨single, ordered⟩ := planOf_ok_iff.mp planned
  obtain ⟨front, owner, back, m, between, split, run, stopped⟩ := Model.addNames_stop failed
  obtain ⟨elements, declared, refers, unbound⟩ :=
    Model.missing_of_addName (fun _ => Specification.isRaw_formula raw) (planned_declared planned split) stopped
  have unique := Plan.order_nodup ordered
  rw [split] at unique
  have built := Model.addNames_builds (List.nodup_append.mp unique).1 (fun _ _ => rfl) run
  have array : (spec.quantities.union spec.formulas).get? owner = some (.array elements) := by
    rw [NameTable.get?_union, declared, Option.some_or]
  refine ⟨.formula declared refers, not_knows_of_unbound built unbound fun key => ?_⟩
  exact Plan.mem_front_of_references ordered split array refers ((NameTable.mem_names_union _ _ _).mpr key)

theorem missing_of_rules {strength : Strength} {plan : Plan} {m : Model K} {solver after : σ} {name : String}
    (raw : spec.isRaw = true) (planned : planOf spec = .ok plan)
    (run : Model.Builds spec strength plan.names {} solver m after)
    (failed : Rule.compileAll (m.scope spec.prebuilt) spec.rules = .error (.missingReference name)) :
    spec.Refers name ∧ ¬ spec.Knows name := by
  obtain ⟨tuple, declared, refused⟩ := Rule.compileAll_error failed
  obtain ⟨refers, unbound⟩ := Rule.missing_of_compile (Specification.isRaw_rule raw declared) refused
  exact ⟨.rule declared refers, not_knows_of_unbound run unbound (mem_planOf_iff planned name).mpr⟩

theorem missing_of_compile {options : BuildOptions} {solver after : σ} {name : String} (raw : spec.isRaw = true)
    (failed : compile spec options solver = (.error (.compile (.missingReference name)), after)) :
    spec.Refers name ∧ ¬ spec.Knows name := by
  unfold compile at failed
  split at failed
  · rename_i refused
    cases failed
    exact absurd refused planOf_ne_missing
  · rename_i plan planned
    split at failed
    · rename_i stopped
      cases failed
      exact missing_of_build raw planned stopped
    · rename_i m between built
      have unique := Plan.order_nodup (planOf_ok_iff.mp planned).2
      split at failed
      · rename_i refused
        cases failed
        exact missing_of_rules raw planned (Model.addNames_builds unique (fun _ _ => rfl) built) refused
      · split at failed <;> cases failed

theorem Compiled.knows_of_bound {options : BuildOptions} {solver after : σ} {c : Compilation K}
    (compiled : Compiled spec options solver c after) {name : String}
    (bound : (c.model.scope spec.prebuilt).binding? name ≠ none) : spec.Knows name := by
  rw [ne_eq, Scope.binding?_eq_none_iff] at bound
  by_contra unknown
  apply bound
  refine ⟨?_, ?_, ?_⟩
  · intro quantity
    exact unknown (.inl (compiled.quantity_names ▸ quantity))
  · intro formula
    exact unknown (.inr (.inl (compiled.formula_names ▸ formula)))
  · intro prebuilt
    exact unknown (.inr (.inr prebuilt))

theorem Compiled.knows_of_refers {options : BuildOptions} {solver after : σ} {c : Compilation K}
    (compiled : Compiled spec options solver c after) {name : String} (refers : spec.Refers name) :
    spec.Knows name := by
  apply compiled.knows_of_bound
  cases refers with
  | @formula owner elements declared refers =>
    obtain ⟨e, _, again⟩ := compiled.expressionOf declared
    have sentence : Formula.Sentence (c.model.scope spec.prebuilt) elements e := Formula.sentence_of_compile again
    exact Formula.bound_of_language.2 elements e sentence name refers
  | @rule tuple declared refers =>
    obtain ⟨rule, _, lowered⟩ := Rule.mem_of_compileAll (Rule.compileAll_ok compiled.rules) declared
    exact Rule.bound_of_writes (Rule.writes_of_compile lowered) refers

/-- A missing reference is reported exactly when something is missing, whatever the solver says. Nothing is missing in
an accepted specification; a name that is reported is missing everywhere and really referred to; and no planned name
can be missing from the tables that it is looked up in when its turn comes. -/
theorem missingReference_truthful (spec : Specification K) (options : BuildOptions) (solver : σ) :
    (∀ c after, compile spec options solver = (.ok c, after) → ∀ name, spec.Refers name → spec.Knows name) ∧
      (spec.isRaw = true → ∀ name after, compile spec options solver = (.error (.compile (.missingReference name)), after) →
        spec.Refers name ∧ ¬ spec.Knows name) ∧
      ∀ plan front name back, planOf spec = .ok plan → plan.names = front ++ name :: back →
        name ∈ (front.foldl NameTable.erase spec.quantities).names ∨ name ∈ spec.formulas.names := by
  refine ⟨?_, ?_, ?_⟩
  · intro c after accepted name refers
    exact (compile_ok accepted).knows_of_refers refers
  · intro raw name after failed
    exact missing_of_compile raw failed
  · intro plan front name back planned split
    exact planned_declared planned split

/-- The formula `area` refers to a `width` that is declared and to a `depth` that is not. -/
def dangling : Specification Rat :=
  let spec : Specification Rat := {}
  spec
    |>.declare "width" (.number 4)
    |>.define "area" (.array [.reference "width", .token (.operator .multiply), .array [.number 2, .token (.operator .add),
      .reference "depth"]])

theorem dangling_depth_missing :
    ((compile dangling {} ({} : Recorder Rat)).1 = .error (.compile (.missingReference "depth")) ∧
      dangling.Refers "depth" ∧ ¬ dangling.Knows "depth") ∧
    (planOf dangling = .ok ⟨["width", "area"]⟩ ∧
      ("area" ∈ (["width"].foldl NameTable.erase dangling.quantities).names ∨ "area" ∈ dangling.formulas.names)) ∧
    shadowed.Refers "unit" ∧ shadowed.Knows "unit" := by
  obtain ⟨_, truthful, reachable⟩ := missingReference_truthful dangling {} ({} : Recorder Rat)
  refine ⟨?_, ?_, ?_⟩
  · have refused : (compile dangling {} ({} : Recorder Rat)).1 = .error (.compile (.missingReference "depth")) := by cbv
    have raw : dangling.isRaw = true := by cbv
    exact ⟨refused, truthful raw "depth" _ (Prod.ext refused rfl)⟩
  · have planned : planOf dangling = .ok ⟨["width", "area"]⟩ := by cbv
    exact ⟨planned, reachable _ ["width"] "area" [] planned rfl⟩
  · obtain ⟨c, after, accepted⟩ := shadowed_accepted
    have refers : shadowed.Refers "unit" := by
      have declared : shadowed.formulas.get? "area" = some (.array [.reference "unit", .token (.operator .subtract),
        .array [.reference "size"], .token (.operator .multiply), .number 2]) := by rfl
      exact .formula declared (by simp [Term.referencesOfAll, Term.references])
    exact ⟨refers, (missingReference_truthful shadowed {} {}).1 c after accepted "unit" refers⟩

end Compilation
end ReactiveLayout
