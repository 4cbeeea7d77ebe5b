import ReactiveLayout.Proofs.Construction
import ReactiveLayout.Proofs.Evaluation
import ReactiveLayout.Proofs.FormulaGrammar

/-! What a specification means, read off its declarations by name, and the proof that compilation keeps it. The
meaning is a relation, since names that refer to each other in a ring have none; a compiled formula has exactly one,
by induction along the plan. Numbers are exact. -/
namespace ReactiveLayout

/-- The value of an array, given values of the quantities by their rank among the declared names. An operand is the
array of itself alone. -/
inductive Denotes (spec : Specification Rat) (values : QuantityId → Rat) : List (Term Rat) → Rat → Prop where
  | number (value : Rat) : Denotes spec values [.number value] value
  | quantity {name : String} {id : QuantityId} (declared : spec.quantities.names.idxOf? name = some id) :
      Denotes spec values [.reference name] (values id)
  | formula {name : String} {term : Term Rat} {x : Rat} (notQuantity : name ∉ spec.quantities.names)
      (declared : spec.formulas.get? name = some term) (meaning : Denotes spec values [term] x) :
      Denotes spec values [.reference name] x
  | existing {name : String} {e : Affine Rat} (notQuantity : name ∉ spec.quantities.names)
      (notFormula : name ∉ spec.formulas.names) (found : spec.prebuilt.get? name = some e) :
      Denotes spec values [.reference name] (e.evaluate values)
  | builtQuantity (id : QuantityId) : Denotes spec values [.built (.quantity id)] (values id)
  | builtExpression (e : Affine Rat) : Denotes spec values [.built (.expression e)] (e.evaluate values)
  | array {elements : List (Term Rat)} {x : Rat} (inner : Denotes spec values elements x) :
      Denotes spec values [.array elements] x
  /-- The last operator applies to all that stands in front of it. -/
  | step {front : List (Term Rat)} {op : Operator} {term : Term Rat} {x y z : Rat}
      (left : Denotes spec values front x) (right : Denotes spec values [term] y)
      (applied : op.result? x y = some z) :
      Denotes spec values (front ++ [.token (.operator op), term]) z

namespace Denotes
variable {spec : Specification Rat} {values : QuantityId → Rat}

def Named (spec : Specification Rat) (values : QuantityId → Rat) (name : String) (x : Rat) : Prop :=
  match spec.quantities.names.idxOf? name with
  | some id => x = values id
  | none =>
    match spec.formulas.get? name with
    | some term => Denotes spec values [term] x
    | none => ∃ e, spec.prebuilt.get? name = some e ∧ x = e.evaluate values

/-- What an operand denotes, by its form. -/
def Operand (spec : Specification Rat) (values : QuantityId → Rat) (x : Rat) : Term Rat → Prop
  | .number value => x = value
  | .reference name => Named spec values name x
  | .built (.quantity id) => x = values id
  | .built (.expression e) => x = e.evaluate values
  | .array elements => Denotes spec values elements x
  | .descriptor _ | .token _ | .producer _ | .built (.strength _) => False

theorem operand {term : Term Rat} {x : Rat} (meaning : Denotes spec values [term] x) : Operand spec values x term := by
  generalize single : [term] = elements at meaning
  cases meaning with
  | number | builtQuantity | builtExpression =>
    cases single
    exact rfl
  | quantity declared =>
    cases single
    simp only [Operand, Named, declared]
  | formula notQuantity declared meaning =>
    cases single
    simpa only [Operand, Named, List.idxOf?_eq_none_iff.mpr notQuantity, declared] using meaning
  | existing notQuantity notFormula found =>
    cases single
    simp only [Operand, Named, List.idxOf?_eq_none_iff.mpr notQuantity, (NameTable.get?_eq_none_iff _ _).mpr notFormula]
    exact ⟨_, found, rfl⟩
  | array inner =>
    cases single
    exact inner
  | step =>
    have lengths := congrArg List.length single
    simp at lengths

theorem last {front : List (Term Rat)} {op : Operator} {term : Term Rat} {z : Rat}
    (meaning : Denotes spec values (front ++ [.token (.operator op), term]) z) :
    ∃ x y, Denotes spec values front x ∧ Denotes spec values [term] y ∧ op.result? x y = some z := by
  generalize split : front ++ [.token (.operator op), term] = elements at meaning
  cases meaning with
  | step left right applied =>
    obtain ⟨rfl, same⟩ := List.append_inj' split rfl
    cases same
    exact ⟨_, _, left, right, applied⟩
  | number | quantity | formula | existing | builtQuantity | builtExpression | array =>
    have lengths := congrArg List.length split
    simp at lengths

theorem unique {elements : List (Term Rat)} {x y : Rat} (first : Denotes spec values elements x)
    (second : Denotes spec values elements y) : x = y := by
  induction first generalizing y with
  | number | builtQuantity | builtExpression => exact second.operand.symm
  | quantity declared =>
    have named := second.operand
    simp only [Operand, Named, declared] at named
    exact named.symm
  | formula notQuantity declared _ ih =>
    have named := second.operand
    simp only [Operand, Named, List.idxOf?_eq_none_iff.mpr notQuantity, declared] at named
    exact ih named
  | existing notQuantity notFormula found =>
    have named := second.operand
    simp only [Operand, Named, List.idxOf?_eq_none_iff.mpr notQuantity,
      (NameTable.get?_eq_none_iff _ _).mpr notFormula, found, Option.some.injEq] at named
    obtain ⟨e, rfl, rfl⟩ := named
    rfl
  | array _ ih => exact ih second.operand
  | step _ _ applied left right =>
    obtain ⟨_, _, front, term, again⟩ := second.last
    rw [← left front, ← right term, applied] at again
    exact Option.some.inj again

end Denotes

namespace Formula
variable {spec : Specification Rat} {values : QuantityId → Rat} {scope : Scope Rat} {owner : String}

/-- The scope binds names to what they denote. -/
def Faithful (spec : Specification Rat) (values : QuantityId → Rat) (scope : Scope Rat) (names : List String) : Prop :=
  ∀ name ∈ names, ∀ e, scope.binding? name = some e → Denotes spec values [.reference name] (e.evaluate values)

theorem primitive_denotes (primitive : Primitive Rat) {e : Affine Rat}
    (resolved : scope.primitive primitive = .ok e) : Denotes spec values [.built primitive] (e.evaluate values) := by
  cases primitive with
  | strength strength => cases resolved
  | quantity id =>
    obtain ⟨rfl, _⟩ := Scope.accept_ok_iff.mp resolved
    rw [Affine.evaluate_quantity]
    exact .builtQuantity id
  | expression built =>
    obtain ⟨rfl, _⟩ := Scope.accept_ok_iff.mp resolved
    exact .builtExpression _

theorem fold_denotes {steps : List (Operator × Affine Rat)} {acc e : Affine Rat} {front rest : List (Term Rat)}
    (passed : Denotes spec values front (acc.evaluate values))
    (stand : List.Forall₂
      (Stands fun term x => Faithful spec values scope term.references → Denotes spec values [term] (x.evaluate values))
      rest (steps.flatMap fun step => [.operator step.1, .operand step.2]))
    (faithful : Faithful spec values scope (Term.referencesOfAll rest))
    (folded : steps.foldlM (fun acc step => acc.apply step.1 step.2) acc = .ok e) :
    Denotes spec values (front ++ rest) (e.evaluate values) := by
  induction steps generalizing acc front rest with
  | nil =>
    cases stand
    cases folded
    rwa [List.append_nil]
  | cons step more ih =>
    cases stand with
    | cons first behind =>
      cases first with
      | operator op =>
        cases behind with
        | @cons term _ later _ second stand =>
          cases second with
          | operand meaning =>
            obtain ⟨next, applied, folded⟩ := foldlM_cons_ok folded
            have faithful : Faithful spec values scope (Term.referencesOfAll (term :: later)) := faithful
            have here := meaning fun name member => faithful name (List.mem_append_left _ member)
            have passed := passed.step here (Affine.result?_of_apply applied values)
            have whole := ih passed stand (fun name member => faithful name (List.mem_append_right _ member)) folded
            rwa [List.append_assoc] at whole

theorem language_denotes :
    (∀ term x, Operand scope term x → Faithful spec values scope term.references →
      Denotes spec values [term] (x.evaluate values)) ∧
    ∀ elements e, Sentence scope elements e → Faithful spec values scope (Term.referencesOfAll elements) →
      Denotes spec values elements (e.evaluate values) := by
  apply language_induction
  · intro value _ _
    exact .number value
  · intro name e bound faithful
    exact faithful name (by simp [Term.references]) e bound
  · intro inner e meaning faithful
    exact .array (meaning (by simpa only [Term.references] using faithful))
  · intro primitive e resolved _
    exact primitive_denotes primitive resolved
  · intro elements start steps e stand folded faithful
    cases stand with
    | cons first later =>
      cases first with
      | operand meaning =>
        have start := meaning fun name member => faithful name (List.mem_append_left _ member)
        exact fold_denotes start later (fun name member => faithful name (List.mem_append_right _ member)) folded

theorem compile_denotes {elements : List (Term Rat)} {e : Affine Rat}
    (faithful : Faithful spec values scope (Term.referencesOfAll elements))
    (compiled : compile owner elements scope = .ok e) : Denotes spec values elements (e.evaluate values) :=
  language_denotes.2 elements e (sentence_of_compile compiled) faithful

end Formula

namespace Compilation
variable {σ : Type} [Solver σ Rat] {spec : Specification Rat} {options : BuildOptions} {solver after : σ}
  {c : Compilation Rat}

/-- A finished scope binds names to what they denote, if it does so for the formulas among them. -/
theorem Compiled.faithful (compiled : Compiled spec options solver c after) {values : QuantityId → Rat}
    {names : List String}
    (formulas : ∀ name ∈ names, ∀ term e, spec.formulas.get? name = some term → c.model.formulas.get? name = some e →
      Denotes spec values [term] (e.evaluate values)) :
    Formula.Faithful spec values (c.model.scope spec.prebuilt) names := by
  intro name member e bound
  simp only [Scope.binding?, Model.scope, QuantityTable.id?_eq_idxOf?, compiled.quantity_names] at bound
  split at bound
  · rename_i id declared
    cases bound
    rw [Affine.evaluate_quantity]
    exact .quantity declared
  · rename_i undeclared
    have notQuantity := List.idxOf?_eq_none_iff.mp undeclared
    split at bound
    · rename_i stored
      cases bound
      obtain ⟨_, run, _⟩ := compiled.built
      rcases run.declared_of_formula stored with impossible | ⟨term, declared⟩
      · cases impossible
      · exact .formula notQuantity declared (formulas name member term e declared stored)
    · rename_i absent
      refine .existing notQuantity (fun declared => ?_) bound
      obtain ⟨term, found⟩ := (NameTable.mem_names_iff _ _).mp declared
      obtain ⟨e, stored, _⟩ := compiled.expressionOf found
      rw [absent] at stored
      cases stored

/-- A compiled formula has the value that it denotes. The induction is on its place in the plan: the formulas that it
refers to stand in front of it. -/
theorem Compiled.formula_denotes (compiled : Compiled spec options solver c after) (values : QuantityId → Rat)
    {name : String} {term : Term Rat} {e : Affine Rat} (declared : spec.formulas.get? name = some term)
    (stored : c.model.formulas.get? name = some e) : Denotes spec values [term] (e.evaluate values) := by
  induction place : c.plan.names.idxOf name using Nat.strong_induction_on generalizing name term e with
  | _ place ih =>
    obtain ⟨same, found, expression⟩ := compiled.expressionOf declared
    obtain rfl := Option.some.inj (stored.symm.trans found)
    unfold Model.expressionOf at expression
    cases term with
    | number value =>
      cases expression
      exact .number value
    | array elements =>
      rw [Term.classify_eq_array_iff.mpr rfl] at expression
      refine .array (Formula.compile_denotes (compiled.faithful fun other refers term e found stored => ?_) expression)
      have bound := (compiled.union_formula declared).1
      have key : other ∈ (spec.quantities.union spec.formulas).names :=
        (NameTable.mem_names_union _ _ _).mpr (.inr (NameTable.mem_names_of_get? found))
      have earlier := Plan.idxOf_lt_of_references compiled.ordered bound refers key
      exact ih _ (place ▸ earlier) found stored rfl
    | built primitive =>
      cases primitive with
      | strength strength => cases expression
      | quantity id => exact Formula.primitive_denotes (.quantity id) expression
      | expression built => exact Formula.primitive_denotes (.expression built) expression
    | descriptor | reference | token | producer => cases expression

/-- Compilation keeps the meaning of every formula, on any solver: at all values of the quantities, its name denotes
what its expression evaluates to and nothing else. -/
theorem compile_keeps_meaning (accepted : compile spec options solver = (.ok c, after)) {name : String}
    (declared : name ∈ spec.formulas.names) (values : QuantityId → Rat) :
    ∃ e, c.model.formulas.get? name = some e ∧
      ∀ x, Denotes spec values [.reference name] x ↔ x = e.evaluate values := by
  have compiled := compile_ok accepted
  obtain ⟨term, found⟩ := (NameTable.mem_names_iff _ _).mp declared
  obtain ⟨e, stored, _⟩ := compiled.expressionOf found
  have notQuantity := (NameTable.get?_eq_none_iff _ _).mp (compiled.union_formula found).2
  have meaning : Denotes spec values [.reference name] (e.evaluate values) :=
    .formula notQuantity found (compiled.formula_denotes values found stored)
  refine ⟨e, stored, fun x => ⟨fun other => other.unique meaning, ?_⟩⟩
  rintro rfl
  exact meaning

theorem shadowed_keeps_meaning : ∃ c after, compile shadowed {} ({} : Recorder Rat) = (.ok c, after) ∧
    "area" ∈ shadowed.formulas.names ∧ ∃ e, c.model.formulas.get? "area" = some e ∧
      ∀ x, Denotes shadowed (fun id => if id = 0 then 3 else 4) [.reference "area"] x ↔
        x = e.evaluate fun id => if id = 0 then 3 else 4 := by
  obtain ⟨c, after, accepted⟩ := shadowed_accepted
  have declared : "area" ∈ shadowed.formulas.names := (NameTable.contains_iff _ _).mp (by cbv)
  exact ⟨c, after, accepted, declared, compile_keeps_meaning accepted declared _⟩

end Compilation
end ReactiveLayout
