import ReactiveLayout.Minimizer
import ReactiveLayout.Proofs.Engine

/-! The optimizer is an engine that keeps what is required. Its anchors are a point where all required constraints
hold: no operation moves them but a search that has been checked, and every settling ends at the anchors or at a
point where all constraints hold. How the search goes makes no difference to that. -/
namespace ReactiveLayout

theorem Constraint.holdsAt_iff (c : Constraint Rat) (point : QuantityId → Rat) :
    c.holdsAt point = true ↔ c.Holds point := by
  have exact : c.form.exact = c.form := by
    have terms : c.form.terms.map (fun t => (t.1, Scalar.toRat t.2)) = c.form.terms := List.map_id _
    rw [Affine.exact, terms]
    rfl
  have near : c.holdsAt point = c.comparator.holdsAt (c.form.exact.evaluate point) := rfl
  rw [near, exact, Comparator.holdsAt_iff, Constraint.Holds]

namespace Optimizer
variable {m after : Optimizer Rat} {taken : List (Constraint Rat)}

theorem satisfiesHard_iff {constraints : List (Constraint Rat)} {point : QuantityId → Rat} :
    satisfiesHard constraints point = true ↔ ∀ c ∈ constraints, c.isHard = true → c.Holds point := by
  rw [satisfiesHard, List.all_eq_true]
  refine forall₂_congr fun c _ => ?_
  rw [← c.holdsAt_iff]
  cases c.isHard <;> simp

theorem find?_map {K : Type} (f : Adjustable K → Adjustable K) (same : ∀ a, (f a).id = a.id) (m : Optimizer K)
    (id : QuantityId) : ({ m with adjustables := m.adjustables.map f } : Optimizer K).find? id = (m.find? id).map f := by
  have unmoved : ((fun a : Adjustable K => a.id == id) ∘ f) = fun a => a.id == id := by
    funext a
    rw [Function.comp_apply, same]
  rw [find?, find?, List.find?_map, unmoved]

/-- Whatever leaves the numbers and the anchors leaves the anchored point. -/
theorem anchored_map (f : Adjustable Rat → Adjustable Rat) (same : ∀ a, (f a).id = a.id)
    (kept : ∀ a, (f a).anchor = a.anchor) (m : Optimizer Rat) :
    ({ m with adjustables := m.adjustables.map f } : Optimizer Rat).anchored = m.anchored := by
  funext id
  rw [anchored, anchored, find?_map f same]
  cases m.find? id with
  | none => rfl
  | some a => exact kept a

theorem valueAt_map (f : Adjustable Rat → Adjustable Rat) (same : ∀ a, (f a).id = a.id) (m : Optimizer Rat)
    (id : QuantityId) : ({ m with adjustables := m.adjustables.map f } : Optimizer Rat).valueAt id =
      ((m.find? id).map fun a => (f a).value).getD 0 := by
  rw [valueAt, find?_map f same, Option.map_map]
  rfl

theorem unsigned_eq (x : Rat) : unsigned x = x := by
  unfold unsigned
  split
  · rename_i zero
    exact (beq_iff_eq.mp zero).symm
  · rfl

/-- The optimizer has taken these constraints and is anchored where those hold that must. -/
structure Anchored (taken : List (Constraint Rat)) (m : Optimizer Rat) : Prop where
  constraints : m.constraints = taken
  holds : satisfiesHard taken m.anchored = true

theorem Anchored.map (anchored : Anchored taken m) (f : Adjustable Rat → Adjustable Rat)
    (same : ∀ a, (f a).id = a.id) (kept : ∀ a, (f a).anchor = a.anchor) :
    Anchored taken { m with adjustables := m.adjustables.map f } where
  constraints := anchored.constraints
  holds := by
    rw [anchored_map f same kept]
    exact anchored.holds

/-- A new variable starts where it counted as being before. -/
theorem Anchored.addEdit {id : QuantityId} {level : Rat} (anchored : Anchored taken m)
    (added : m.addEdit id level = (.ok (), after)) : Anchored taken after := by
  unfold Optimizer.addEdit at added
  split at added
  · cases added
  · split at added
    · cases added
      refine ⟨anchored.constraints, ?_⟩
      have still : ({ m with adjustables := m.adjustables ++ [⟨id, level, 0, 0, 0⟩] } : Optimizer Rat).anchored =
          m.anchored := by
        funext other
        rw [Optimizer.anchored, Optimizer.anchored, find?, find?, List.find?_append]
        cases m.adjustables.find? (·.id == other) with
        | some a => rfl
        | none =>
          rw [Option.none_or]
          by_cases here : id = other <;> simp [here]
      rw [still]
      exact anchored.holds
    · cases added

theorem Anchored.suggest (anchored : Anchored taken m) (id : QuantityId) (value : Rat) :
    Anchored taken (m.suggest id value).2 := by
  unfold Optimizer.suggest
  split
  · exact anchored
  · by_cases free : m.constraints.isEmpty = true
    · obtain rfl : taken = [] := anchored.constraints ▸ List.isEmpty_iff.mp free
      exact ⟨anchored.constraints, rfl⟩
    · simp only [free, Bool.false_eq_true, if_false]
      refine anchored.map _ (fun a => ?_) fun a => ?_
      all_goals split <;> rfl

/-- A settling ends where the constraints hold that must. -/
theorem Anchored.settle (anchored : Anchored taken m) :
    Anchored taken m.settle ∧ satisfiesHard taken m.settle.valueAt = true := by
  unfold Optimizer.settle
  split
  · rename_i free
    refine ⟨anchored.map _ (fun _ => rfl) fun _ => rfl, satisfiesHard_iff.mpr fun c member _ => ?_⟩
    have target : ({ m with adjustables := m.adjustables.map fun a => { a with value := unsigned a.suggested } } :
        Optimizer Rat).valueAt = m.target := by
      funext id
      rw [valueAt_map (fun a => { a with value := unsigned a.suggested }) fun _ => rfl]
      simp only [unsigned_eq]
      rfl
    rw [target, ← c.holdsAt_iff]
    exact List.all_eq_true.mp free c (anchored.constraints ▸ member)
  · dsimp only
    generalize search : (if satisfiesHard m.constraints (m.anchorAt (m.optimum m.constraints)).anchored then
      m.anchorAt (m.optimum m.constraints) else m) = chosen
    have checked : Anchored taken chosen := by
      split at search
      · rename_i good
        subst search
        exact ⟨anchored.constraints, anchored.constraints ▸ good⟩
      · subst search
        exact anchored
    have anchors : ({ chosen with
        adjustables := chosen.adjustables.map fun a => { a with value := Scalar.ofRat a.anchor } } :
        Optimizer Rat).valueAt = chosen.anchored := by
      funext id
      exact valueAt_map (fun a => { a with value := Scalar.ofRat a.anchor }) (fun _ => rfl) chosen id
    rw [anchors]
    exact ⟨checked.map _ (fun _ => rfl) fun _ => rfl, checked.holds⟩

theorem Anchored.addConstraint {c : Constraint Rat} (anchored : Anchored taken m)
    (added : m.addConstraint c = (.ok (), after)) : Anchored (taken ++ [c]) after := by
  have near : c.isLost = false := rfl
  unfold Optimizer.addConstraint at added
  simp only [near, Bool.false_eq_true, if_false] at added
  split at added
  · split at added
    · rename_i moved found
      cases added
      refine ⟨by rw [anchored.constraints], ?_⟩
      rw [← anchored.constraints]
      unfold reanchor? at found
      split at found
      · rename_i good
        cases found
        exact good
      · dsimp only at found
        split at found
        · rename_i good
          cases found
          exact good
        · cases found
    · cases added
  · rename_i soft
    cases added
    refine ⟨by rw [anchored.constraints], satisfiesHard_iff.mpr fun other member hard => ?_⟩
    rcases List.mem_append.mp member with old | new
    · exact satisfiesHard_iff.mp anchored.holds other old hard
    · obtain rfl := List.mem_singleton.mp new
      exact absurd hard soft

theorem anchored_of_reaches {e : Optimizer Rat} (reached : Engine.Reaches taken e) : Anchored taken e := by
  induction reached with
  | fresh => exact ⟨rfl, rfl⟩
  | addEdit _ added ih => exact ih.addEdit added
  | suggest id value _ ih => exact ih.suggest id value
  | addConstraint _ added ih => exact ih.addConstraint added
  | settle _ ih => exact ih.settle.1

theorem keepsRequired : Engine.KeepsRequired (Optimizer Rat) := by
  intro taken e reached c member hard
  exact satisfiesHard_iff.mp (anchored_of_reaches reached).settle.2 c member hard

end Optimizer
end ReactiveLayout
