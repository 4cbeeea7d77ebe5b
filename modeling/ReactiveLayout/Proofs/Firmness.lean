import ReactiveLayout.Proofs.Lowering

/-! Which rules must hold. Strength and weight come to one number, and a constraint must hold from the level of the
required strength on, so besides the required rules it is those whose weight lifts them up to that level. No other rule
can be refused as unsatisfiable, and a batch adds just these to the constraints that must hold. -/
namespace ReactiveLayout
variable {K : Type} [Scalar K]

/-- The required level is above all others. -/
structure Strength.Ranked (K : Type) [Scalar K] : Prop where
  below : ∀ strength : Strength, strength ≠ .required → strength.level < (Strength.required.level : K)
  top : ¬ (Strength.required.level : K) < Strength.required.level

theorem Strength.ranked_rat : Ranked Rat where
  below strength optional := by
    cases strength with
    | required => exact absurd rfl optional
    | weak | medium | strong => decide +kernel
  top := by decide +kernel

theorem Strength.ranked_float : Ranked Float where
  below strength optional := by
    cases strength with
    | required => exact absurd rfl optional
    | weak | medium | strong => decide +kernel
  top := by decide +kernel

/-- No engine refuses a constraint as unsatisfiable that need not hold. -/
def Engine.Forgiving (τ : Type) {K : Type} [Engine τ K] [Scalar K] : Prop :=
  ∀ (c : Constraint K) (e : τ), c.isHard = false → (Engine.addConstraint c e).1 ≠ .error .unsatisfiable

theorem Optimizer.forgiving : Engine.Forgiving (Optimizer K) := by
  intro c m soft refused
  change (m.addConstraint c).1 = .error .unsatisfiable at refused
  simp only [addConstraint, soft, Bool.false_eq_true, if_false] at refused
  split at refused
  · split at refused <;> cases refused
  · cases refused

namespace Rule

/-- The rule is required, or its weight lifts its strength to the required level. -/
def IsFirm (rule : Rule K) : Prop :=
  rule.strength = .required ∨ ¬ rule.weight ≤ 0 ∧ ¬ rule.strength.level * rule.weight < Strength.required.level

instance (rule : Rule K) : Decidable rule.IsFirm := inferInstanceAs (Decidable (_ ∨ _ ∧ _))

theorem level_ofRule (values : QuantityId → K) (rule : Rule K) :
    (Constraint.ofRule values rule).level = rule.strength.weighted rule.weight := by
  obtain ⟨demand, strength, weight⟩ := rule
  cases demand <;> rfl

theorem isHard_iff (ranked : Strength.Ranked K) (values : QuantityId → K) (rule : Rule K) :
    (Constraint.ofRule values rule).isHard = true ↔ rule.IsFirm := by
  rw [Constraint.isHard, level_ofRule, Bool.not_eq_true', decide_eq_false_iff_not, Strength.weighted, IsFirm]
  by_cases required : rule.strength = .required
  · rw [if_pos (.inl required), required]
    exact iff_of_true ranked.top (.inl rfl)
  · by_cases unweighted : rule.weight ≤ 0
    · rw [if_pos (.inr unweighted)]
      refine iff_of_false (fun high => high (ranked.below _ required)) ?_
      rintro (same | ⟨weighted, _⟩)
      · exact required same
      · exact weighted unweighted
    · rw [if_neg (not_or.mpr ⟨required, unweighted⟩)]
      dsimp only
      split
      · rename_i low
        exact iff_of_false (fun high => high low) (not_or.mpr ⟨required, fun firm => firm.2 low⟩)
      · rename_i high
        exact iff_of_true ranked.top (.inr ⟨unweighted, high⟩)

end Rule

namespace EngineSolver
variable {τ : Type} [Engine τ K]

/-- What becomes of a rule: its constraint is added, or nothing but the engine may have changed. -/
inductive Adds (s : EngineSolver τ K) (rule : Rule K) : Reply (SolverError K) Unit (EngineSolver τ K) → Prop where
  | taken (engine : τ) :
      Adds s rule (.ok (), { s with engine, constraints := s.constraints ++ [Constraint.ofRule s.valueAt rule] })
  | refused {e : SolverError K} (engine : τ) (conflict : ∀ other, e = .unsatisfiable other →
      other = rule ∧ (Engine.addConstraint (Constraint.ofRule s.valueAt rule) s.engine).1 = .error .unsatisfiable) :
      Adds s rule (.error e, { s with engine })

theorem addRule_adds (s : EngineSolver τ K) (rule : Rule K) : Adds s rule (s.addRule rule) := by
  unfold addRule
  split
  · rename_i e refused
    refine .refused s.engine fun other unsatisfiable => ?_
    obtain ⟨id, _, _, unknown⟩ := constraint_error refused
    cases unknown.symm.trans unsatisfiable
  · rename_i c lowered
    obtain ⟨rfl, _⟩ := constraint_ok lowered
    split
    · rename_i engine refused
      refine .refused engine fun other unsatisfiable => ?_
      cases unsatisfiable
      exact ⟨rfl, congrArg Prod.fst refused⟩
    · exact .refused _ fun other unsatisfiable => (nomatch unsatisfiable)
    · exact .taken _

/-- A batch is taken up to the first refused rule, and all stays in it are held at the values in front of it. -/
structure AddsFront (s : EngineSolver τ K) (taken rest : List (Rule K))
    (reply : Reply (SolverError K) Unit (EngineSolver τ K)) : Prop where
  constraints : reply.2.constraints = s.constraints ++ taken.map (Constraint.ofRule s.valueAt)
  whole : reply.1 = .ok () → rest = []
  conflict : ∀ rule, reply.1 = .error (.unsatisfiable rule) → rest.head? = some rule ∧
    ∃ e : τ, (Engine.addConstraint (Constraint.ofRule s.valueAt rule) e).1 = .error .unsatisfiable

theorem addRules_addsFront (s : EngineSolver τ K) (rules : List (Rule K)) :
    ∃ taken rest, rules = taken ++ rest ∧ AddsFront s taken rest (s.addRules rules) := by
  induction rules generalizing s with
  | nil =>
    refine ⟨[], [], rfl, (List.append_nil _).symm, fun _ => rfl, ?_⟩
    intro rule unsatisfiable
    cases unsatisfiable
  | cons rule rest ih =>
    have first := addRule_adds s rule
    rw [addRules]
    generalize s.addRule rule = reply at first
    cases first with
    | refused engine conflict =>
      refine ⟨[], rule :: rest, rfl, (List.append_nil _).symm, ?_, ?_⟩
      · intro whole
        cases whole
      · intro other unsatisfiable
        obtain ⟨rfl, refused⟩ := conflict other (Except.error.inj unsatisfiable)
        exact ⟨rfl, _, refused⟩
    | taken engine =>
      obtain ⟨taken, rest, rfl, constraints, whole, conflict⟩ := ih { s with
        engine, constraints := s.constraints ++ [Constraint.ofRule s.valueAt rule] }
      exact ⟨rule :: taken, rest, rfl, constraints.trans (List.append_assoc _ _ _), whole, conflict⟩

def hardConstraints (s : EngineSolver τ K) : List (Constraint K) := s.constraints.filter (·.isHard)

variable {s : EngineSolver τ K} {taken rest : List (Rule K)} {reply : Reply (SolverError K) Unit (EngineSolver τ K)}

theorem AddsFront.hardConstraints_eq (ranked : Strength.Ranked K) (front : AddsFront s taken rest reply) :
    reply.2.hardConstraints =
      s.hardConstraints ++ (taken.filter (·.IsFirm)).map (Constraint.ofRule s.valueAt) := by
  have same : ((·.isHard) : Constraint K → Bool) ∘ Constraint.ofRule s.valueAt = fun rule => decide rule.IsFirm := by
    funext rule
    exact Bool.eq_iff_iff.mpr ((Rule.isHard_iff ranked s.valueAt rule).trans decide_eq_true_iff.symm)
  rw [hardConstraints, front.constraints, List.filter_append, List.filter_map, same, hardConstraints]

theorem AddsFront.firm (ranked : Strength.Ranked K) (forgiving : Engine.Forgiving τ)
    (front : AddsFront s taken rest reply) {rule : Rule K} (unsatisfiable : reply.1 = .error (.unsatisfiable rule)) :
    rule ∈ rest ∧ rule.IsFirm := by
  obtain ⟨first, e, refused⟩ := front.conflict rule unsatisfiable
  refine ⟨List.mem_of_head? first, (Rule.isHard_iff ranked s.valueAt rule).mp ?_⟩
  by_contra soft
  exact forgiving _ e (Bool.eq_false_iff.mpr soft) refused

/-- Whatever a solver was given before: a batch is taken up to a refused rule, the firm rules among those taken are
added to the constraints that must hold, and a rule that is unsatisfiable is firm. So a batch without required rules
whose weights stay below the required level is never unsatisfiable and adds no constraint that must hold. -/
theorem unsatisfiable_only_firm (ranked : Strength.Ranked K) (forgiving : Engine.Forgiving τ)
    (inputs : List (Solver.Input K)) (rules : List (Rule K)) :
    let s : EngineSolver τ K := Solver.giveAll {} inputs
    let reply := s.addRules rules
    (∃ taken rest, rules = taken ++ rest ∧ (reply.1 = .ok () → rest = []) ∧
      reply.2.hardConstraints =
        s.hardConstraints ++ (taken.filter (·.IsFirm)).map (Constraint.ofRule s.valueAt) ∧
      ∀ rule, reply.1 = .error (.unsatisfiable rule) → rest.head? = some rule ∧ rule.IsFirm) ∧
    ((∀ rule ∈ rules, rule.strength ≠ .required ∧
        (rule.weight ≤ 0 ∨ rule.strength.level * rule.weight < Strength.required.level)) →
      (∀ rule, reply.1 ≠ .error (.unsatisfiable rule)) ∧ reply.2.hardConstraints = s.hardConstraints) := by
  intro s reply
  obtain ⟨taken, rest, split, front⟩ := addRules_addsFront s rules
  have firm {rule : Rule K} (unsatisfiable : reply.1 = .error (.unsatisfiable rule)) :=
    front.firm ranked forgiving unsatisfiable
  refine ⟨⟨taken, rest, split, front.whole, front.hardConstraints_eq ranked, fun rule unsatisfiable =>
    ⟨(front.conflict rule unsatisfiable).1, (firm unsatisfiable).2⟩⟩, fun light => ?_⟩
  have soft (rule : Rule K) (member : rule ∈ rules) : ¬ rule.IsFirm := by
    obtain ⟨optional, unweighted | below⟩ := light rule member
    · exact not_or.mpr ⟨optional, fun heavy => heavy.1 unweighted⟩
    · exact not_or.mpr ⟨optional, fun heavy => heavy.2 below⟩
  constructor
  · intro rule unsatisfiable
    obtain ⟨member, firm⟩ := firm unsatisfiable
    exact soft rule (split ▸ List.mem_append_right taken member) firm
  · have noneFirm : taken.filter (·.IsFirm) = [] := by
      refine List.filter_eq_nil_iff.mpr fun rule member => ?_
      rw [decide_eq_true_iff]
      exact soft rule (split ▸ List.mem_append_left rest member)
    rw [front.hardConstraints_eq ranked, noneFirm, List.map_nil, List.append_nil]

def limited : Minimizer Float :=
  Solver.giveAll {} [.register 0 0 .strong,
    .addRules [⟨.relation (.quantity 0) .greaterOrEqual (.constant 10), .required, 0⟩]]

def capped (weight : Float) : Rule Float := ⟨.relation (.quantity 0) .lessOrEqual (.constant 5), .strong, weight⟩

theorem unsatisfiable_only_firm_capped :
    (limited.addRules [capped 0, capped 1000]).1.isOk = true ∧
      (∀ rule, (limited.addRules [capped 0, capped 1000]).1 ≠ .error (.unsatisfiable rule)) ∧
      (limited.addRules [capped 0, capped 1000]).2.hardConstraints = limited.hardConstraints := by
  have light : ∀ rule ∈ [capped 0, capped 1000], rule.strength ≠ .required ∧
      (rule.weight ≤ 0 ∨ rule.strength.level * rule.weight < Strength.required.level) := by decide +kernel
  exact ⟨by decide +kernel, (unsatisfiable_only_firm Strength.ranked_float Optimizer.forgiving _ _).2 light⟩

/-- The weight lifts the rule to the required level. -/
theorem heavy_rule_unsatisfiable :
    (∀ rule ∈ [capped 2000], rule.strength ≠ .required ∧ rule.Weighed) ∧
      ∃ rule, (limited.addRules [capped 2000]).1 = .error (.unsatisfiable rule) := by
  constructor
  · intro rule member
    obtain rfl := List.mem_singleton.mp member
    exact ⟨nofun, by decide +kernel, by decide +kernel⟩
  · have refused : (match (limited.addRules [capped 2000]).1 with
      | .error (.unsatisfiable _) => true
      | _ => false) = true := by decide +kernel
    split at refused
    · rename_i rule failed
      exact ⟨rule, failed⟩
    · cases refused

end EngineSolver
end ReactiveLayout
