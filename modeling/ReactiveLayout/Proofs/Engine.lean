import Mathlib.Algebra.Order.Ring.Rat
import ReactiveLayout.Engine
import ReactiveLayout.Proofs.Evaluation

/-! What a solver relies on when it leaves its constraints to an engine. The law of the engine is stated once, as a
property of the states that its operations lead to; the solver keeps such a state and lowers its rules to constraints
that say what the rules say. Numbers are exact. -/
namespace ReactiveLayout

def Comparator.Relates : Comparator → Rat → Rat → Prop
  | .lessOrEqual, x, y => x ≤ y
  | .greaterOrEqual, x, y => y ≤ x
  | .equal, x, y => x = y

theorem Comparator.holdsAt_iff (comparator : Comparator) (x : Rat) :
    comparator.holdsAt x = true ↔ comparator.Relates x 0 := by
  cases comparator with
  | lessOrEqual | greaterOrEqual => exact decide_eq_true_iff
  | equal => exact beq_iff_eq

theorem Comparator.relates_sub_zero (comparator : Comparator) (x y : Rat) :
    comparator.Relates (x - y) 0 ↔ comparator.Relates x y := by
  cases comparator with
  | lessOrEqual => exact sub_nonpos
  | greaterOrEqual => exact sub_nonneg
  | equal => exact sub_eq_zero

def Constraint.Holds (c : Constraint Rat) (values : QuantityId → Rat) : Prop :=
  c.comparator.Relates (c.form.evaluate values) 0

namespace Rule

/-- What a rule demands of the values, where a stay goes back to the initial ones. -/
def Holds (rule : Rule Rat) (initial values : QuantityId → Rat) : Prop :=
  match rule.demand with
  | .relation left comparator right => comparator.Relates (left.evaluate values) (right.evaluate values)
  | .stay target => target.evaluate values = target.evaluate initial

theorem holds_ofRule_iff (rule : Rule Rat) (initial values : QuantityId → Rat) :
    (Constraint.ofRule initial rule).Holds values ↔ rule.Holds initial values := by
  obtain ⟨demand, strength, weight⟩ := rule
  cases demand with
  | relation left comparator right =>
    simp only [Constraint.ofRule, Constraint.Holds, Holds, Affine.evaluate_minus]
    exact comparator.relates_sub_zero _ _
  | stay target =>
    simp only [Constraint.ofRule, Constraint.Holds, Holds, Affine.evaluate_minus]
    have fixed (x : Rat) : (Affine.constant x).evaluate values = x := rfl
    rw [fixed]
    exact Comparator.equal.relates_sub_zero _ _

theorem isHard_of_required {rule : Rule Rat} (required : rule.strength = .required) (initial : QuantityId → Rat) :
    (Constraint.ofRule initial rule).isHard = true := by
  have level : (Constraint.ofRule initial rule).level = Strength.required.level := by
    obtain ⟨demand, strength, weight⟩ := rule
    obtain rfl : strength = .required := required
    cases demand <;> simp [Constraint.ofRule, Strength.weighted]
  have reflexive : ¬ (Strength.required.level : Rat) < Strength.required.level := lt_irrefl _
  simp only [Constraint.isHard, level, decide_eq_false reflexive, Bool.not_false]

end Rule

namespace EngineSolver
variable {τ K : Type} [Engine τ K] [Scalar K] {s after : EngineSolver τ K}

omit [Engine τ K] [Scalar K] in
theorem lookup_concat (entries : List (QuantityId × K)) (id : QuantityId) (value : K) (other : QuantityId) :
    (entries ++ [(id, value)]).lookup other =
      (entries.lookup other).or (if other = id then some value else none) := by
  rw [List.lookup_append, List.lookup_cons]
  by_cases same : other = id
  · rw [if_pos same, beq_iff_eq.mpr same]
  · rw [if_neg same, beq_eq_false_iff_ne.mpr same]
    rfl

/-- All that an accepted registration went through. -/
theorem register_taken {id : QuantityId} {initial : K} {strength : Strength}
    (registered : s.register id initial strength = (.ok (), after)) :
    s.knows id = false ∧ ∃ added suggested, Engine.addEdit id strength.level s.engine = (.ok (), added) ∧
      Engine.suggest id initial added = (.ok (), suggested) ∧
      after = { s with engine := suggested, adjustables := s.adjustables ++ [(id, initial)] } := by
  unfold register at registered
  split at registered
  · cases registered
  · rename_i fresh
    split at registered
    · cases registered
    · split at registered
      · cases registered
      · cases registered
      · rename_i added edit
        split at registered
        · cases registered
        · rename_i suggested taken
          cases registered
          exact ⟨Bool.eq_false_iff.mpr fresh, added, suggested, edit, taken, rfl⟩

theorem register_refused {id : QuantityId} {initial : K} {strength : Strength} {e : SolverError K}
    (refused : s.register id initial strength = (.error e, after)) : ∃ engine, after = { s with engine } := by
  unfold register at refused
  split at refused
  · cases refused
    exact ⟨_, rfl⟩
  · split at refused
    · cases refused
      exact ⟨_, rfl⟩
    · split at refused
      · cases refused
        exact ⟨_, rfl⟩
      · cases refused
        exact ⟨_, rfl⟩
      · split at refused
        · cases refused
          exact ⟨_, rfl⟩
        · cases refused

theorem constraint_ok {rule : Rule K} {c : Constraint K} (lowered : s.constraint rule = .ok c) :
    c = Constraint.ofRule s.valueAt rule ∧ ∀ id ∈ c.form.quantities, s.knows id = true := by
  unfold constraint at lowered
  dsimp only at lowered
  split at lowered
  · cases lowered
  · rename_i known
    cases lowered
    refine ⟨rfl, fun id mentioned => ?_⟩
    simpa using List.find?_eq_none.mp known id mentioned

theorem addRule_taken {rule : Rule K} (added : s.addRule rule = (.ok (), after)) :
    ∃ c engine, s.constraint rule = .ok c ∧ Engine.addConstraint c s.engine = (.ok (), engine) ∧
      after = { s with engine, constraints := s.constraints ++ [c] } := by
  unfold addRule at added
  split at added
  · cases added
  · rename_i c lowered
    split at added
    · cases added
    · cases added
    · rename_i engine taken
      cases added
      exact ⟨c, engine, lowered, taken, rfl⟩

omit [Scalar K] in
theorem suggest_cases (s : EngineSolver τ K) (id : QuantityId) (value : K) :
    (s.suggest id value).2 = s ∨ (s.suggest id value).2 = { s with engine := (Engine.suggest id value s.engine).2 } := by
  unfold suggest
  split
  · generalize Engine.suggest id value s.engine = reply
    obtain ⟨answer, engine⟩ := reply
    cases answer <;> exact .inr rfl
  · exact .inl rfl

omit [Scalar K] in
theorem lookup_resolve (s : EngineSolver τ K) (id : QuantityId) :
    s.resolve.2.adjustables.lookup id =
      (s.adjustables.lookup id).map fun _ => Engine.value (Engine.settle s.engine) id := by
  have refreshed (entries : List (QuantityId × K)) (f : QuantityId → K) :
      (entries.map fun entry => (entry.1, f entry.1)).lookup id = (entries.lookup id).map fun _ => f id := by
    induction entries with
    | nil => rfl
    | cons entry rest ih =>
      rw [List.map_cons, List.lookup_cons, List.lookup_cons, ih]
      cases same : id == entry.1 with
      | true => rw [beq_iff_eq.mp same, Option.map_some]
      | false => rfl
  exact refreshed s.adjustables _

end EngineSolver

variable {τ : Type} [Engine τ Rat]

namespace Engine

/-- The states that the operations of an engine lead to, each with the constraints taken on the way. Nothing is said of
a state in which a constraint was refused. -/
inductive Reaches : List (Constraint Rat) → τ → Prop where
  | fresh : Reaches [] fresh
  | addEdit {taken : List (Constraint Rat)} {e after : τ} {id : QuantityId} {level : Rat} (reached : Reaches taken e)
      (added : addEdit id level e = (.ok (), after)) : Reaches taken after
  | suggest {taken : List (Constraint Rat)} {e : τ} (id : QuantityId) (value : Rat) (reached : Reaches taken e) :
      Reaches taken (suggest id value e).2
  | addConstraint {taken : List (Constraint Rat)} {e after : τ} {c : Constraint Rat} (reached : Reaches taken e)
      (added : addConstraint c e = (.ok (), after)) : Reaches (taken ++ [c]) after
  | settle {taken : List (Constraint Rat)} {e : τ} (reached : Reaches taken e) : Reaches taken (settle e)

/-- Settled, an engine has values at which all constraints hold that it has taken and that must hold. -/
def KeepsRequired (τ : Type) [Engine τ Rat] : Prop :=
  ∀ (taken : List (Constraint Rat)) (e : τ), Reaches taken e → ∀ c ∈ taken, c.isHard = true →
    c.Holds (value (settle e))

end Engine

namespace EngineSolver
variable {s after : EngineSolver τ Rat} {id : QuantityId}

/-- The engine has taken exactly the constraints on the books, and all their quantities are registered. -/
structure Sound (s : EngineSolver τ Rat) : Prop where
  reached : Engine.Reaches s.constraints s.engine
  mentions : ∀ c ∈ s.constraints, ∀ id ∈ c.form.quantities, s.knows id = true

theorem sound_fresh : Sound ({} : EngineSolver τ Rat) where
  reached := .fresh
  mentions _ member := nomatch member

theorem register_ok {initial : Rat} {strength : Strength} (sound : s.Sound)
    (registered : s.register id initial strength = (.ok (), after)) :
    after.Sound ∧ after.adjustables = s.adjustables ++ [(id, initial)] ∧ after.constraints = s.constraints := by
  obtain ⟨_, engine, suggested, added, taken, rfl⟩ := register_taken registered
  have drawn : (Engine.suggest id initial engine).2 = suggested := congrArg Prod.snd taken
  refine ⟨⟨drawn ▸ (sound.reached.addEdit added).suggest id initial, ?_⟩, rfl, rfl⟩
  intro c member other mentioned
  have known := sound.mentions c member other mentioned
  simp only [knows, List.lookup_append, Option.isSome_or] at known ⊢
  rw [known, Bool.true_or]

theorem suggest_keeps (sound : s.Sound) (id : QuantityId) (value : Rat) :
    (s.suggest id value).2.Sound ∧ (s.suggest id value).2.adjustables = s.adjustables ∧
      (s.suggest id value).2.constraints = s.constraints := by
  rcases suggest_cases s id value with same | drawn
  · rw [same]
    exact ⟨sound, rfl, rfl⟩
  · rw [drawn]
    exact ⟨⟨sound.reached.suggest id value, sound.mentions⟩, rfl, rfl⟩

theorem resolve_sound (sound : s.Sound) : s.resolve.2.Sound where
  reached := sound.reached.settle
  mentions c member id mentioned := by
    rw [knows, lookup_resolve, Option.isSome_map]
    exact sound.mentions c member id mentioned

/-- After a resolution the values of the registered quantities satisfy the constraints that must hold. -/
theorem resolve_holds (keeps : Engine.KeepsRequired τ) (sound : s.Sound) {c : Constraint Rat} (member : c ∈ s.constraints)
    (hard : c.isHard = true) : c.Holds s.resolve.2.valueAt := by
  have settled := keeps _ _ sound.reached c member hard
  have same : c.form.evaluate s.resolve.2.valueAt = c.form.evaluate (Engine.value (Engine.settle s.engine)) := by
    refine Affine.evaluate_congr fun id mentioned => ?_
    obtain ⟨value, found⟩ := Option.isSome_iff_exists.mp (sound.mentions c member id mentioned)
    rw [valueAt, lookup_resolve, found, Option.map_some, Option.getD_some]
  rwa [Constraint.Holds, same]

theorem addRule_ok {rule : Rule Rat} (sound : s.Sound) (added : s.addRule rule = (.ok (), after)) :
    after.Sound ∧ after.adjustables = s.adjustables ∧
      after.constraints = s.constraints ++ [Constraint.ofRule s.valueAt rule] := by
  obtain ⟨c, engine, lowered, taken, rfl⟩ := addRule_taken added
  obtain ⟨rfl, known⟩ := constraint_ok lowered
  refine ⟨⟨sound.reached.addConstraint taken, ?_⟩, rfl, rfl⟩
  intro c member id mentioned
  rcases List.mem_append.mp member with old | new
  · exact sound.mentions c old id mentioned
  · obtain rfl := List.mem_singleton.mp new
    exact known id mentioned

/-- Rules that are taken become constraints in their order, all of them at the values in front of the first. -/
theorem addRules_ok {rules : List (Rule Rat)} (sound : s.Sound) (added : s.addRules rules = (.ok (), after)) :
    after.Sound ∧ after.adjustables = s.adjustables ∧
      after.constraints = s.constraints ++ rules.map (Constraint.ofRule s.valueAt) := by
  induction rules generalizing s with
  | nil =>
    cases added
    exact ⟨sound, rfl, (List.append_nil _).symm⟩
  | cons rule rest ih =>
    rw [addRules] at added
    split at added
    · cases added
    · rename_i middle first
      obtain ⟨sound, same, taken⟩ := addRule_ok sound first
      obtain ⟨whole, unchanged, constraints⟩ := ih sound added
      have values : middle.valueAt = s.valueAt := by
        funext id
        rw [valueAt, valueAt, same]
      refine ⟨whole, unchanged.trans same, ?_⟩
      rw [constraints, taken, values, List.append_assoc]
      rfl

end EngineSolver
end ReactiveLayout
