import ReactiveLayout.Rule
import ReactiveLayout.Proofs.FormulaGrammar

/-! The language of rule tuples, told by position. A relation has its comparator in the second place and its right side
in the third; a stay has neither; both end with a strength and a weight that may be missing. The compiler looks at the
terms one by one and at the length of the tuple in between, and accepts exactly this language. -/
namespace ReactiveLayout.Rule
variable {K : Type} [Scalar K]

/-- The terms that can lead a rule. -/
def Leads : Term K → Prop
  | .token _ => False
  | .array elements => elements ≠ []
  | .reference name => ∃ c ∈ name.toList, Blank.isSpace c = false
  | .number _ | .descriptor _ | .producer _ | .built _ => True

/-- The strength that is written in a place of a tuple, which may be behind its end. -/
inductive StrengthAt : Option (Term K) → Strength → Prop where
  | missing : StrengthAt none .medium
  | token (strength : Strength) : StrengthAt (some (.token (.strength strength))) strength
  | built (strength : Strength) : StrengthAt (some (.built (.strength strength))) strength

/-- The weight that is written in a place of a tuple, which may be behind its end. -/
inductive WeightAt : Option (Term K) → K → Prop where
  | missing : WeightAt none 0
  | number {weight : K} (finite : Scalar.isFinite weight = true) (nonnegative : 0 ≤ weight) :
      WeightAt (some (.number weight)) weight

/-- The tuples of the language, each with the rule that it writes. -/
inductive Writes (scope : Scope K) (tuple : List (Term K)) : Rule K → Prop where
  | relation {left right : Term K} {comparator : Comparator} {l r : Affine K} {strength : Strength} {weight : K}
      (length : 3 ≤ tuple.length ∧ tuple.length ≤ 5)
      (first : tuple[0]? = some left) (leads : Leads left) (leftOperand : Formula.Operand scope left l)
      (second : tuple[1]? = some (.token (.comparator comparator)))
      (third : tuple[2]? = some right) (rightOperand : Formula.Operand scope right r)
      (fourth : StrengthAt tuple[3]? strength) (fifth : WeightAt tuple[4]? weight) :
      Writes scope tuple ⟨.relation l comparator r, strength, weight⟩
  | stay {left : Term K} {target : Affine K} {strength : Strength} {weight : K}
      (length : 1 ≤ tuple.length ∧ tuple.length ≤ 3)
      (first : tuple[0]? = some left) (leads : Leads left) (operand : Formula.Operand scope left target)
      (second : StrengthAt tuple[1]? strength) (third : WeightAt tuple[2]? weight) :
      Writes scope tuple ⟨.stay target, strength, weight⟩

omit [Scalar K] in
theorem leads_iff {term : Term K} : Leads term ↔ isBlank term = false := by
  cases term with
  | reference name => simp [Leads, isBlank, Blank.isBlank]
  | array elements => simp [Leads, isBlank]
  | token | number | descriptor | producer | built => simp [Leads, isBlank]

variable {scope : Scope K}

theorem operand_ok_iff {term : Term K} {e : Affine K} : operand scope term = .ok e ↔ Formula.Operand scope term e := by
  cases term with
  | number value =>
    by_cases finite : Scalar.isFinite value = true
    · constructor
      · intro read
        simp only [operand, Term.classify, Term.kind?, finite, if_true] at read
        cases read
        exact .number finite
      · intro number
        cases number
        simp only [operand, Term.classify, Term.kind?, finite, if_true]
    · constructor
      · intro read
        simp only [operand, Term.classify, Term.kind?, finite, Bool.false_eq_true, if_false] at read
        cases read
      · intro number
        cases number with
        | number finite' => exact absurd finite' finite
  | descriptor value =>
    constructor
    · intro read
      by_cases finite : Scalar.isFinite value = true <;> simp [operand, Term.classify, Term.kind?, finite] at read
    · intro impossible
      cases impossible
  | reference name =>
    constructor
    · intro read
      exact .reference (Scope.lookup_ok_iff.mp read)
    · intro reference
      cases reference with
      | reference bound => exact Scope.lookup_ok_iff.mpr bound
  | array elements => exact Formula.operand_array_iff.symm
  | built primitive => exact Formula.operand_built_iff.symm
  | token | producer =>
    constructor
    · intro impossible
      cases impossible
    · intro impossible
      cases impossible

omit [Scalar K] in
theorem strengthOf_ok_iff {emphasis : List (Term K)} {strength : Strength} :
    strengthOf emphasis = .ok strength ↔ StrengthAt emphasis[0]? strength := by
  constructor
  · intro read
    unfold strengthOf at read
    split at read
    · cases read
      exact .missing
    · cases read
      exact .token _
    · cases read
      exact .built _
    · cases read
  · intro written
    cases emphasis with
    | nil =>
      cases written
      rfl
    | cons term rest =>
      rw [List.getElem?_cons_zero] at written
      cases written with
      | token => rfl
      | built => rfl

theorem weightOf_ok_iff {emphasis : List (Term K)} {weight : K} :
    weightOf emphasis = .ok weight ↔ WeightAt emphasis[0]? weight := by
  constructor
  · intro read
    unfold weightOf at read
    split at read
    · cases read
      exact .missing
    · split at read
      · rename_i valid
        cases read
        obtain ⟨finite, nonnegative⟩ := Bool.and_eq_true_iff.mp valid
        exact .number finite (of_decide_eq_true nonnegative)
      · cases read
    · cases read
  · intro written
    cases emphasis with
    | nil =>
      cases written
      rfl
    | cons term rest =>
      rw [List.getElem?_cons_zero] at written
      cases written with
      | number finite nonnegative => simp only [weightOf, finite, nonnegative, decide_true, Bool.and_self, if_true]

theorem withEmphasis_ok_iff {demand : Demand K} {emphasis : List (Term K)} {rule : Rule K} :
    withEmphasis demand emphasis = .ok rule ↔
      rule.demand = demand ∧ StrengthAt emphasis[0]? rule.strength ∧ WeightAt emphasis[1]? rule.weight := by
  have next : emphasis.tail[0]? = emphasis[1]? := by
    cases emphasis <;> rfl
  rw [← next, ← strengthOf_ok_iff, ← weightOf_ok_iff]
  unfold withEmphasis
  constructor
  · intro read
    split at read
    · cases read
    · rename_i strength written
      split at read
      · cases read
      · rename_i weight weighted
        cases read
        exact ⟨rfl, written, weighted⟩
  · rintro ⟨rfl, written, weighted⟩
    rw [written, weighted]

theorem relation_ok_iff {left : Term K} {comparator : Comparator} {rest : List (Term K)} {rule : Rule K} :
    relation scope left comparator rest = .ok rule ↔ ∃ right emphasis l r, rest = right :: emphasis ∧
      emphasis.length ≤ 2 ∧ Formula.Operand scope left l ∧ Formula.Operand scope right r ∧
      withEmphasis (.relation l comparator r) emphasis = .ok rule := by
  constructor
  · intro read
    unfold relation at read
    dsimp only at read
    split at read
    · cases read
    · rename_i short
      split at read
      · cases read
      · rename_i right emphasis
        split at read
        · cases read
        · rename_i l first
          split at read
          · cases read
          · rename_i r third
            refine ⟨right, emphasis, l, r, rfl, ?_, operand_ok_iff.mp first, operand_ok_iff.mp third, read⟩
            simp only [List.length_cons, relationLimit] at short
            omega
  · rintro ⟨right, emphasis, l, r, rfl, short, first, third, read⟩
    have limit : ¬ (left :: .token (.comparator comparator) :: right :: emphasis).length > relationLimit := by
      simp only [List.length_cons, relationLimit]
      omega
    simp only [relation, limit, if_false, operand_ok_iff.mpr first, operand_ok_iff.mpr third, read]

theorem stay_ok_iff {left : Term K} {emphasis : List (Term K)} {rule : Rule K} :
    stay scope left emphasis = .ok rule ↔ ∃ target, emphasis.length ≤ 2 ∧ Formula.Operand scope left target ∧
      withEmphasis (.stay target) emphasis = .ok rule := by
  constructor
  · intro read
    unfold stay at read
    dsimp only at read
    split at read
    · cases read
    · rename_i short
      split at read
      · cases read
      · rename_i target first
        refine ⟨target, ?_, operand_ok_iff.mp first, read⟩
        simp only [List.length_cons, stayLimit] at short
        omega
  · rintro ⟨target, short, first, read⟩
    have limit : ¬ (left :: emphasis).length > stayLimit := by
      simp only [List.length_cons, stayLimit]
      omega
    simp only [stay, limit, if_false, operand_ok_iff.mpr first, read]

theorem compile_of_strength {left : Term K} {emphasis : List (Term K)} {strength : Strength} (leads : Leads left)
    (written : StrengthAt emphasis[0]? strength) : compile scope (left :: emphasis) = stay scope left emphasis := by
  have notBlank := leads_iff.mp leads
  cases emphasis with
  | nil => simp only [compile, notBlank, Bool.false_eq_true, if_false]
  | cons term rest =>
    rw [List.getElem?_cons_zero] at written
    cases written with
    | token => simp only [compile, notBlank, Bool.false_eq_true, if_false]
    | built => simp only [compile, notBlank, Bool.false_eq_true, if_false]

theorem writes_of_compile {tuple : List (Term K)} {rule : Rule K} (compiled : compile scope tuple = .ok rule) :
    Writes scope tuple rule := by
  cases tuple with
  | nil => cases compiled
  | cons left rest =>
    unfold compile at compiled
    dsimp only at compiled
    split at compiled
    · cases compiled
    · rename_i notBlank
      have leads : Leads left := leads_iff.mpr (Bool.eq_false_iff.mpr notBlank)
      split at compiled
      · cases compiled
      · rename_i comparator rest
        obtain ⟨right, emphasis, l, r, rfl, short, first, third, read⟩ := relation_ok_iff.mp compiled
        obtain ⟨demand, strength, weight⟩ := rule
        obtain ⟨rfl, fourth, fifth⟩ := withEmphasis_ok_iff.mp read
        refine .relation ⟨?_, ?_⟩ rfl leads first rfl rfl third fourth fifth
        · simp only [List.length_cons]
          omega
        · simp only [List.length_cons]
          omega
      · cases compiled
      · obtain ⟨target, short, first, read⟩ := stay_ok_iff.mp compiled
        obtain ⟨demand, strength, weight⟩ := rule
        obtain ⟨rfl, second, third⟩ := withEmphasis_ok_iff.mp read
        refine .stay ⟨?_, ?_⟩ rfl leads first second third
        · simp only [List.length_cons]
          omega
        · simp only [List.length_cons]
          omega

theorem compile_of_writes {tuple : List (Term K)} {rule : Rule K} (writes : Writes scope tuple rule) :
    compile scope tuple = .ok rule := by
  cases writes with
  | @relation left right comparator l r strength weight length first leads leftOperand second third rightOperand fourth
      fifth =>
    obtain ⟨emphasis, rfl⟩ : ∃ emphasis, tuple = left :: .token (.comparator comparator) :: right :: emphasis := by
      cases tuple with
      | nil => cases first
      | cons a rest =>
        cases first
        cases rest with
        | nil => cases second
        | cons b rest =>
          cases second
          cases rest with
          | nil => cases third
          | cons c emphasis =>
            cases third
            exact ⟨emphasis, rfl⟩
    have read : withEmphasis (.relation l comparator r) emphasis = .ok ⟨.relation l comparator r, strength, weight⟩ :=
      withEmphasis_ok_iff.mpr ⟨rfl, fourth, fifth⟩
    have fits : emphasis.length ≤ 2 := by
      simp only [List.length_cons] at length
      omega
    rw [compile, leads_iff.mp leads]
    exact relation_ok_iff.mpr ⟨right, emphasis, l, r, rfl, fits, leftOperand, rightOperand, read⟩
  | @stay left target strength weight length first leads operand second third =>
    cases tuple with
    | nil => cases first
    | cons a emphasis =>
      cases first
      have read : withEmphasis (.stay target) emphasis = .ok ⟨.stay target, strength, weight⟩ :=
        withEmphasis_ok_iff.mpr ⟨rfl, second, third⟩
      have fits : emphasis.length ≤ 2 := by
        simp only [List.length_cons] at length
        omega
      rw [compile_of_strength leads second]
      exact stay_ok_iff.mpr ⟨target, fits, operand, read⟩

/-- The compiler accepts exactly the tuples of the language and makes of them the rules that they write. A strict
comparator in the second place is refused as such, whatever stands behind it. -/
theorem compile_ok_iff_writes (scope : Scope K) (tuple : List (Term K)) :
    (∀ rule, compile scope tuple = .ok rule ↔ Writes scope tuple rule) ∧
      ∀ left comparator, tuple[0]? = some left → Leads left → tuple[1]? = some (.token (.strict comparator)) →
        compile scope tuple = .error (.unsupportedComparator comparator) := by
  refine ⟨fun rule => ⟨writes_of_compile, compile_of_writes⟩, ?_⟩
  intro left comparator first leads second
  cases tuple with
  | nil => cases first
  | cons a rest =>
    cases first
    cases rest with
    | nil => cases second
    | cons b rest =>
      cases second
      rw [compile, leads_iff.mp leads]
      rfl

/-- Nothing behind a strict comparator is looked at, not even whether there is anything. -/
theorem strict_comparator_refused :
    Leads (.reference "width" : Term Rat) ∧
      compile (⟨.empty, ∅, ∅⟩ : Scope Rat) [.reference "width", .token (.strict .less)] =
        .error (.unsupportedComparator .less) := by
  have leads : Leads (.reference "width" : Term Rat) := leads_iff.mpr (by decide)
  exact ⟨leads, (compile_ok_iff_writes _ _).2 _ _ rfl leads rfl⟩

end ReactiveLayout.Rule
