import ReactiveLayout.Proofs.Registration

/-! The states of a recorder. Whatever calls lead to one, it has pending suggestions for registered quantities only and
forces a quantity to one value, so a resolution comes to a law for each quantity: the last write wins, and a forced
value wins over all. Recorders that differ in their records alone cannot be told apart by any later call. -/
namespace ReactiveLayout
variable {K : Type}

/-- The last of the values that a row of suggestions has for a quantity. -/
def lastFor? (id : QuantityId) (suggestions : List (QuantityId × K)) : Option K := suggestions.reverse.lookup id

theorem lastFor?_append (id : QuantityId) (front back : List (QuantityId × K)) :
    lastFor? id (front ++ back) = (lastFor? id back).or (lastFor? id front) := by
  rw [lastFor?, List.reverse_append, List.lookup_append]
  rfl

theorem lastFor?_cons (id : QuantityId) (s : QuantityId × K) (rest : List (QuantityId × K)) :
    lastFor? id (s :: rest) = (lastFor? id rest).or (if id = s.1 then some s.2 else none) := by
  obtain ⟨other, value⟩ := s
  rw [← List.singleton_append, lastFor?_append]
  congr 1
  by_cases here : id = other
  · simp [lastFor?, here]
  · simp [lastFor?, List.lookup_cons, beq_eq_false_iff_ne.mpr here, here]

theorem lastFor?_concat (suggestions : List (QuantityId × K)) (id : QuantityId) (value : K) (other : QuantityId) :
    lastFor? other (suggestions ++ [(id, value)]) = if other = id then some value else lastFor? other suggestions := by
  rw [lastFor?_append, lastFor?_cons]
  split <;> rfl

theorem lastFor?_eq_none {id : QuantityId} {suggestions : List (QuantityId × K)}
    (silent : ∀ s ∈ suggestions, s.1 ≠ id) : lastFor? id suggestions = none := by
  induction suggestions with
  | nil => rfl
  | cons s rest ih =>
    rw [lastFor?_cons, ih fun t member => silent t (List.mem_cons_of_mem _ member),
      if_neg (silent s List.mem_cons_self).symm, Option.none_or]

theorem mem_of_lastFor? {id : QuantityId} {value : K} {suggestions : List (QuantityId × K)}
    (last : lastFor? id suggestions = some value) : (id, value) ∈ suggestions := by
  induction suggestions with
  | nil => cases last
  | cons s rest ih =>
    rw [lastFor?_cons] at last
    cases later : lastFor? id rest with
    | some found =>
      rw [later, Option.some_or] at last
      exact List.mem_cons_of_mem _ (ih (later.trans last))
    | none =>
      rw [later, Option.none_or] at last
      split at last
      · rename_i here
        obtain rfl := Option.some.inj last
        rw [here]
        exact List.mem_cons_self
      · cases last

namespace ValueMap

/-- The keys are in increasing order. -/
def Ordered (values : ValueMap K) : Prop := values.Pairwise fun a b => a.1 < b.1

theorem mem_set {id : QuantityId} {value : K} {values : ValueMap K} {entry : QuantityId × K}
    (member : entry ∈ set id value values) : entry = (id, value) ∨ entry ∈ values := by
  induction values with
  | nil => exact .inl (List.mem_singleton.mp member)
  | cons first rest ih =>
    simp only [set] at member
    split at member
    · exact List.mem_cons.mp member
    · split at member
      · exact (List.mem_cons.mp member).imp_right (List.mem_cons_of_mem _)
      · rcases List.mem_cons.mp member with rfl | later
        · exact .inr List.mem_cons_self
        · exact (ih later).imp_right (List.mem_cons_of_mem _)

theorem Ordered.set {values : ValueMap K} (ordered : values.Ordered) (id : QuantityId) (value : K) :
    (ValueMap.set id value values).Ordered := by
  induction values with
  | nil => exact List.pairwise_singleton _ _
  | cons first rest ih =>
    obtain ⟨least, later⟩ := List.pairwise_cons.mp ordered
    simp only [ValueMap.set]
    split
    · rename_i before
      refine List.pairwise_cons.mpr ⟨?_, ordered⟩
      intro entry member
      rcases List.mem_cons.mp member with rfl | member
      · exact before
      · exact Nat.lt_trans before (least entry member)
    · rename_i notBefore
      split
      · rename_i same
        exact List.pairwise_cons.mpr ⟨same ▸ least, later⟩
      · rename_i different
        refine List.pairwise_cons.mpr ⟨?_, ih later⟩
        intro entry member
        rcases mem_set member with rfl | member
        · exact Nat.lt_of_le_of_ne (Nat.le_of_not_lt notBefore) (Ne.symm different)
        · exact least entry member

theorem Ordered.lastFor?_eq {values : ValueMap K} (ordered : values.Ordered) (id : QuantityId) :
    lastFor? id values = values.lookup id := by
  induction values with
  | nil => rfl
  | cons first rest ih =>
    obtain ⟨least, later⟩ := List.pairwise_cons.mp ordered
    rw [lastFor?_cons]
    by_cases here : id = first.1
    · rw [here, lastFor?_eq_none fun s member => Nat.ne_of_gt (least s member), if_pos rfl, Option.none_or,
        List.lookup_cons, beq_self_eq_true]
    · rw [if_neg here, Option.or_none, ih later, List.lookup_cons, beq_eq_false_iff_ne.mpr here]

theorem lookup_foldl_set (writes : List (QuantityId × K)) (values : ValueMap K) (id : QuantityId) :
    (writes.foldl (fun values s => values.set s.1 s.2) values).lookup id =
      (lastFor? id writes).or (values.lookup id) := by
  induction writes generalizing values with
  | nil => rfl
  | cons s rest ih =>
    rw [List.foldl_cons, ih, lastFor?_cons, Option.or_assoc]
    congr 1
    by_cases here : id = s.1
    · rw [here, lookup_set_self, if_pos rfl, Option.some_or]
    · rw [lookup_set_ne s.2 values here, if_neg here, Option.none_or]

theorem lookup_update (values : ValueMap K) (id : QuantityId) (value : K) (other : QuantityId) :
    (values.update id value).lookup other =
      (values.lookup other).map fun old => if other = id then value else old := by
  unfold update
  by_cases here : other = id
  · subst here
    cases known : values.lookup other with
    | none => simp [known]
    | some old => simp [lookup_set_self]
  · simp only [if_neg here, Option.map_id']
    split
    · exact lookup_set_ne value values here
    · rfl

theorem lookup_foldl_update (writes : List (QuantityId × K)) (values : ValueMap K) (id : QuantityId) :
    (writes.foldl (fun values f => values.update f.1 f.2) values).lookup id =
      (values.lookup id).map fun old => (lastFor? id writes).getD old := by
  induction writes generalizing values with
  | nil => exact Option.map_id'.symm
  | cons f rest ih =>
    rw [List.foldl_cons, ih, lookup_update, Option.map_map]
    congr 1
    funext old
    rw [Function.comp_apply, lastFor?_cons]
    cases lastFor? id rest with
    | some value => rfl
    | none => by_cases here : id = f.1 <;> simp [here]

end ValueMap

namespace Recorder
variable {r t : Recorder K}

/-- A resolution writes the pending suggestions one after another, and then the forced values over what is there. -/
theorem lookup_resolve (r : Recorder K) (id : QuantityId) :
    r.resolve.2.values.lookup id =
      ((lastFor? id r.pending).or (r.values.lookup id)).map fun asked => (lastFor? id r.forced).getD asked := by
  rw [resolve, ValueMap.lookup_foldl_update, ValueMap.lookup_foldl_set]

/-- All that can have been done with a recorder. -/
inductive Reached : Recorder K → Prop where
  | fresh : Reached {}
  | register {r : Recorder K} (reached : Reached r) (id : QuantityId) (initial : K) (strength : Strength) :
      Reached (r.register id initial strength).2
  | suggest {r : Recorder K} (reached : Reached r) (id : QuantityId) (value : K) : Reached (r.suggest id value).2
  | resolve {r : Recorder K} (reached : Reached r) : Reached r.resolve.2
  | addRules {r : Recorder K} (reached : Reached r) (rules : List (Rule K)) : Reached (r.addRules rules).2
  | clearCalls {r : Recorder K} (reached : Reached r) : Reached r.clearCalls
  | reject {r : Recorder K} (reached : Reached r) (id : QuantityId) : Reached (r.reject id)
  | force {r : Recorder K} (reached : Reached r) (id : QuantityId) (value : K) : Reached (r.force id value)

/-- What all of it keeps. -/
structure Sound (r : Recorder K) : Prop where
  registered : ∀ s ∈ r.pending, (r.values.lookup s.1).isSome = true
  forced : r.forced.Ordered

theorem Sound.register (sound : r.Sound) (id : QuantityId) (initial : K) (strength : Strength) :
    (r.register id initial strength).2.Sound := by
  have kept (other : QuantityId) (known : (r.values.lookup other).isSome = true) :
      ((r.values.set id initial).lookup other).isSome = true := by
    by_cases here : other = id
    · rw [here, ValueMap.lookup_set_self]
      rfl
    · rwa [ValueMap.lookup_set_ne initial r.values here]
  unfold Recorder.register
  dsimp only
  split
  · exact ⟨sound.registered, sound.forced⟩
  · split
    · exact ⟨fun s member => kept s.1 (sound.registered s member), sound.forced⟩
    · exact ⟨fun s member => kept s.1 (sound.registered s member), sound.forced⟩

theorem Sound.suggest (sound : r.Sound) (id : QuantityId) (value : K) : (r.suggest id value).2.Sound := by
  unfold Recorder.suggest
  dsimp only
  split
  · exact ⟨sound.registered, sound.forced⟩
  · rename_i known
    split
    · exact ⟨sound.registered, sound.forced⟩
    · refine ⟨?_, sound.forced⟩
      intro s member
      rcases List.mem_append.mp member with old | new
      · exact sound.registered s old
      · obtain rfl := List.mem_singleton.mp new
        simpa [log] using known

theorem Reached.sound (reached : Reached r) : r.Sound := by
  induction reached with
  | fresh => exact ⟨fun _ member => (nomatch member), .nil⟩
  | register _ id initial strength ih => exact ih.register id initial strength
  | suggest _ id value ih => exact ih.suggest id value
  | resolve _ ih => exact ⟨fun _ member => (nomatch member), ih.forced⟩
  | addRules _ _ ih => exact ⟨ih.registered, ih.forced⟩
  | clearCalls _ ih => exact ⟨ih.registered, ih.forced⟩
  | reject _ _ ih => exact ⟨ih.registered, ih.forced⟩
  | force _ id value ih => exact ⟨ih.registered, ih.forced.set id value⟩

theorem Sound.lastFor?_pending (sound : r.Sound) {id : QuantityId} (unknown : r.values.lookup id = none) :
    lastFor? id r.pending = none := by
  refine lastFor?_eq_none fun s member here => ?_
  have known := sound.registered s member
  rw [here, unknown] at known
  cases known

/-- Recorders that agree in everything but their records and their rules. -/
structure Twins (r t : Recorder K) : Prop where
  values : ∀ id, r.values.lookup id = t.values.lookup id
  pending : r.pending = t.pending
  forced : r.forced = t.forced
  rejected : r.rejected = t.rejected

theorem Twins.suggest (twins : Twins r t) (id : QuantityId) (value : K) :
    (r.suggest id value).1 = (t.suggest id value).1 ∧ Twins (r.suggest id value).2 (t.suggest id value).2 := by
  obtain ⟨values, pending, forced, rejected⟩ := twins
  unfold Recorder.suggest
  dsimp only
  rw [values id, rejected]
  split
  · exact ⟨rfl, values, pending, forced, rejected⟩
  · split
    · exact ⟨rfl, values, pending, forced, rejected⟩
    · exact ⟨rfl, values, congrArg (· ++ [(id, value)]) pending, forced, rejected⟩

theorem Twins.resolve (twins : Twins r t) : Twins r.resolve.2 t.resolve.2 where
  values id := by
    rw [lookup_resolve, lookup_resolve, twins.values, twins.pending, twins.forced]
  pending := rfl
  forced := twins.forced
  rejected := twins.rejected

/-- A resolution leaves every forced value in its place. -/
theorem forced_resolve (r : Recorder K) (id : QuantityId) (value : K)
    (known : r.resolve.2.values.lookup id = some value) : (lastFor? id r.forced).getD value = value := by
  rw [lookup_resolve] at known
  obtain ⟨asked, _, rfl⟩ := Option.map_eq_some_iff.mp known
  cases lastFor? id r.forced <;> rfl

/-- With nothing pending and every forced value in its place, a resolution changes no value. -/
theorem twins_resolve (nothing : r.pending = [])
    (forced : ∀ id value, r.values.lookup id = some value → (lastFor? id r.forced).getD value = value) :
    Twins r.resolve.2 r where
  values id := by
    rw [lookup_resolve, nothing]
    change (r.values.lookup id).map _ = _
    cases known : r.values.lookup id with
    | none => rfl
    | some value => exact congrArg some (forced id value known)
  pending := nothing.symm
  forced := rfl
  rejected := rfl

end Recorder
end ReactiveLayout
