import ReactiveLayout.Proofs.Closure
import ReactiveLayout.Proofs.Firmness
import ReactiveLayout.Proofs.Recorder

/-! What a refused registration leaves behind. The solver on an engine looks before it writes, so it is in the state in
front of the call. A recorder writes first: the record has every registration that was asked for, and a quantity that is
registered again takes the new initial value, which stays until a suggestion, a forced value or a further registration
writes over it. Nothing else of a recorder depends on it, whatever is done later. -/
namespace ReactiveLayout
variable {K : Type}

section
variable [Scalar K]

/-- A variable that has just been made editable takes any suggestion, and no other operation makes one editable. -/
structure Engine.Admits (τ : Type) {K : Type} [Scalar K] [Engine τ K] : Prop extends Engine.AddsEdits τ where
  initial : ∀ {id : QuantityId} {level value : K} {e added : τ}, addEdit id level e = (.ok (), added) →
    ∃ after, suggest id value added = (.ok (), after)
  drawn : ∀ {id other : QuantityId} {value : K} {e : τ}, isEdit (suggest id value e).2 other = true →
    isEdit e other = true
  constrained : ∀ {c : Constraint K} {other : QuantityId} {e : τ}, isEdit (addConstraint c e).2 other = true →
    isEdit e other = true
  settled : ∀ {other : QuantityId} {e : τ}, isEdit (settle e) other = true → isEdit e other = true

theorem Optimizer.admits (ranked : Strength.Ranked K) : Engine.Admits (Optimizer K) where
  toAddsEdits := addsEdits ranked.below
  initial {id level value m added} edit := by
    have isEdit : (added.find? id).isSome = true := keepsEdits.added edit
    change ∃ after, added.suggest id value = (.ok (), after)
    simp [suggest, Option.isNone_eq_false_iff.mpr isEdit]
  drawn {id other value m} edit := by
    have same : (m.suggest id value).2.adjustables.map (·.id) = m.adjustables.map (·.id) :=
      ids_suggest Prod.mk.eta.symm
    rw [isEdit_iff] at edit ⊢
    exact same ▸ edit
  constrained {c other m} edit := by
    have same : (m.addConstraint c).2.adjustables.map (·.id) = m.adjustables.map (·.id) :=
      ids_addConstraint Prod.mk.eta.symm
    rw [isEdit_iff] at edit ⊢
    exact same ▸ edit
  settled {other m} edit := by
    rw [isEdit_iff] at edit ⊢
    exact ids_settle m ▸ edit

namespace EngineSolver
variable {τ : Type} [Engine τ K] {s after : EngineSolver τ K}

/-- The engine has no editable variable beside the registered quantities. -/
def Enrolled (s : EngineSolver τ K) : Prop := ∀ id, Engine.isEdit s.engine id = true → s.knows id = true

theorem register_refused_eq (admits : Engine.Admits τ) (enrolled : s.Enrolled) {id : QuantityId} {initial : K}
    {strength : Strength} {e : SolverError K} (refused : s.register id initial strength = (.error e, after)) :
    after = s := by
  unfold register at refused
  split at refused
  · cases refused
    rfl
  · rename_i unknown
    split at refused
    · cases refused
      rfl
    · rename_i optional
      have notEdit : Engine.isEdit s.engine id = false := Bool.eq_false_iff.mpr (mt (enrolled id) unknown)
      obtain ⟨added, edit⟩ := admits.taken optional notEdit
      obtain ⟨suggested, taken⟩ := admits.initial edit
      rw [edit] at refused
      dsimp only at refused
      rw [taken] at refused
      cases refused

theorem Enrolled.register (admits : Engine.Admits τ) (enrolled : s.Enrolled) (id : QuantityId) (initial : K)
    (strength : Strength) : (s.register id initial strength).2.Enrolled := by
  cases reply : s.register id initial strength with
  | mk answer after =>
    cases answer with
    | error e => exact (register_refused_eq admits enrolled reply).symm ▸ enrolled
    | ok =>
      obtain ⟨_, added, suggested, edit, taken, rfl⟩ := register_taken reply
      intro other isEdit
      rw [knows, lookup_concat, Option.isSome_or, Bool.or_eq_true]
      by_cases same : other = id
      · exact .inr (by rw [if_pos same, Option.isSome_some])
      · rw [admits.suggested taken, admits.others edit same] at isEdit
        exact .inl (enrolled other isEdit)

theorem Enrolled.addRules (admits : Engine.Admits τ) (enrolled : s.Enrolled) (rules : List (Rule K)) :
    (s.addRules rules).2.Enrolled := by
  induction rules generalizing s with
  | nil => exact enrolled
  | cons rule rest ih =>
    have first : (s.addRule rule).2.Enrolled := by
      unfold addRule
      split
      · exact enrolled
      · rename_i c _
        have kept (id : QuantityId) (edit : Engine.isEdit (Engine.addConstraint c s.engine).2 id = true) :
            s.knows id = true := enrolled id (admits.constrained edit)
        split <;> rename_i reply <;> rw [reply] at kept <;> exact kept
    rw [EngineSolver.addRules]
    generalize s.addRule rule = reply at first
    obtain ⟨answer, between⟩ := reply
    cases answer with
    | error e => exact first
    | ok => exact ih first

theorem Enrolled.give (admits : Engine.Admits τ) (s : EngineSolver τ K) (input : Solver.Input K)
    (enrolled : s.Enrolled) : (Solver.give s input).2.Enrolled := by
  cases input with
  | register id initial strength => exact enrolled.register admits id initial strength
  | suggest id value =>
    change (s.suggest id value).2.Enrolled
    rcases suggest_cases s id value with same | drawn
    · rwa [same]
    · rw [drawn]
      exact fun other edit => enrolled other (admits.drawn edit)
  | resolve =>
    intro other edit
    change (s.resolve.2.adjustables.lookup other).isSome = true
    rw [lookup_resolve, Option.isSome_map]
    exact enrolled other (admits.settled edit)
  | addRules rules => exact enrolled.addRules admits rules

theorem enrolled_giveAll (admits : Engine.Admits τ) (inputs : List (Solver.Input K)) :
    Enrolled (Solver.giveAll ({} : EngineSolver τ K) inputs) := by
  refine Solver.giveAll_invariant (Enrolled.give admits) (fun id edit => ?_) inputs
  rw [admits.fresh id] at edit
  cases edit

end EngineSolver
end

namespace Recorder
variable {r t after : Recorder K}

/-- All that can be done with a recorder. -/
inductive Order (K : Type) where
  | call (input : Solver.Input K)
  | clearCalls
  | reject (id : QuantityId)
  | force (id : QuantityId) (value : K)

def perform (r : Recorder K) : Order K → Recorder K
  | .call input => (Solver.give r input).2
  | .clearCalls => r.clearCalls
  | .reject id => r.reject id
  | .force id value => r.force id value

def performAll (r : Recorder K) (orders : List (Order K)) : Recorder K := orders.foldl perform r

theorem register_after (r : Recorder K) (id : QuantityId) (initial : K) (strength : Strength) :
    (r.register id initial strength).2 = { r.log (.register id initial strength) with
      values := if strength = .required then r.values else r.values.set id initial } := by
  unfold register
  dsimp only
  split
  · rfl
  · split <;> rfl

theorem suggest_after (r : Recorder K) (id : QuantityId) (value : K) :
    (r.suggest id value).2 = { r.log (.suggest id value) with
      pending := if (r.values.lookup id).isNone ∨ id ∈ r.rejected then r.pending else r.pending ++ [(id, value)] } := by
  unfold suggest
  dsimp only
  split
  · rename_i unknown
    rw [if_pos (.inl unknown)]
    rfl
  · rename_i known
    split
    · rename_i rejected
      rw [if_pos (.inr rejected)]
      rfl
    · rename_i free
      rw [if_neg (not_or.mpr ⟨known, free⟩)]
      rfl

/-- Recorders that differ in their records and their rules, and apart from that in values of the given kinds only. -/
structure AlikeUpTo (parts : QuantityId → K → K → Prop) (r t : Recorder K) : Prop where
  values : ∀ id, r.values.lookup id = t.values.lookup id ∨
    ∃ x y, r.values.lookup id = some x ∧ t.values.lookup id = some y ∧ parts id x y
  pending : r.pending = t.pending
  forced : r.forced = t.forced
  rejected : r.rejected = t.rejected

namespace AlikeUpTo
variable {parts : QuantityId → K → K → Prop}

theorem isSome_eq (alike : AlikeUpTo parts r t) (id : QuantityId) :
    (r.values.lookup id).isSome = (t.values.lookup id).isSome := by
  rcases alike.values id with same | ⟨x, y, left, right, _⟩
  · rw [same]
  · rw [left, right]
    rfl

theorem register (alike : AlikeUpTo parts r t) (id : QuantityId) (initial : K) (strength : Strength) :
    AlikeUpTo parts (r.register id initial strength).2 (t.register id initial strength).2 := by
  rw [register_after, register_after]
  refine ⟨fun other => ?_, alike.pending, alike.forced, alike.rejected⟩
  dsimp only
  split
  · exact alike.values other
  · by_cases same : other = id
    · rw [same, ValueMap.lookup_set_self, ValueMap.lookup_set_self]
      exact .inl rfl
    · rw [ValueMap.lookup_set_ne _ _ same, ValueMap.lookup_set_ne _ _ same]
      exact alike.values other

theorem suggest (alike : AlikeUpTo parts r t) (id : QuantityId) (value : K) :
    AlikeUpTo parts (r.suggest id value).2 (t.suggest id value).2 := by
  have unknown : (r.values.lookup id).isNone = (t.values.lookup id).isNone := by
    rw [← Option.not_isSome, alike.isSome_eq, Option.not_isSome]
  rw [suggest_after, suggest_after, unknown, alike.pending, alike.rejected]
  exact ⟨alike.values, rfl, alike.forced, alike.rejected⟩

/-- A resolution writes the same values into both, so it keeps a difference only where it writes nothing. -/
theorem resolve (alike : AlikeUpTo parts r t) : AlikeUpTo parts r.resolve.2 t.resolve.2 := by
  refine ⟨fun id => ?_, rfl, alike.forced, alike.rejected⟩
  rw [lookup_resolve, lookup_resolve, alike.pending, alike.forced]
  rcases alike.values id with same | ⟨x, y, left, right, differ⟩
  · exact .inl (by rw [same])
  · rw [left, right]
    cases lastFor? id t.pending with
    | some asked => exact .inl rfl
    | none =>
      cases lastFor? id t.forced with
      | some value => exact .inl rfl
      | none => exact .inr ⟨x, y, rfl, rfl, differ⟩

theorem perform (alike : AlikeUpTo parts r t) (order : Order K) :
    AlikeUpTo parts (r.perform order) (t.perform order) := by
  cases order with
  | call input =>
    cases input with
    | register id initial strength => exact alike.register id initial strength
    | suggest id value => exact alike.suggest id value
    | resolve => exact alike.resolve
    | addRules rules => exact ⟨alike.values, alike.pending, alike.forced, alike.rejected⟩
  | clearCalls => exact ⟨alike.values, alike.pending, alike.forced, alike.rejected⟩
  | reject id =>
    refine ⟨alike.values, alike.pending, alike.forced, ?_⟩
    simp only [Recorder.perform, Recorder.reject, alike.rejected]
  | force id value => exact ⟨alike.values, alike.pending, congrArg (ValueMap.set id value) alike.forced, alike.rejected⟩

theorem performAll (alike : AlikeUpTo parts r t) (orders : List (Order K)) :
    AlikeUpTo parts (r.performAll orders) (t.performAll orders) := by
  induction orders generalizing r t with
  | nil => exact alike
  | cons order rest ih => exact ih (alike.perform order)

end AlikeUpTo

/-- A refused registration was for a quantity at required strength, or for one that has a value. -/
theorem register_error {id : QuantityId} {initial : K} {strength : Strength} {e : SolverError K}
    (refused : r.register id initial strength = (.error e, after)) :
    strength = .required ∨ ∃ former, r.values.lookup id = some former := by
  unfold register at refused
  dsimp only at refused
  split at refused
  · exact .inl ‹_›
  · split at refused
    · exact .inr (Option.isSome_iff_exists.mp ‹_›)
    · cases refused

theorem register_ok {id : QuantityId} {initial : K} {strength : Strength}
    (registered : r.register id initial strength = (.ok (), after)) : r.values.lookup id = none := by
  unfold register at registered
  dsimp only at registered
  split at registered
  · cases registered
  · split at registered
    · cases registered
    · exact Option.not_isSome_iff_eq_none.mp ‹_›

/-- Nothing but its record and the value of a quantity that was registered again tells a recorder after a refused
registration from the one before. -/
theorem alikeUpTo_refused {id : QuantityId} {initial : K} {strength : Strength} {e : SolverError K}
    (refused : r.register id initial strength = (.error e, after)) :
    AlikeUpTo (fun other x y => other = id ∧ strength ≠ .required ∧ r.values.lookup id = some x ∧ y = initial) r after := by
  obtain rfl : (r.register id initial strength).2 = after := congrArg Prod.snd refused
  rw [register_after]
  refine ⟨fun other => ?_, rfl, rfl, rfl⟩
  dsimp only
  split
  · exact .inl rfl
  · rename_i optional
    by_cases same : other = id
    · obtain ⟨former, known⟩ := (register_error refused).resolve_left optional
      rw [same, ValueMap.lookup_set_self]
      exact .inr ⟨former, initial, known, rfl, rfl, optional, known, rfl⟩
    · rw [ValueMap.lookup_set_ne _ _ same]
      exact .inl rfl

/-- How a recorder goes on after a refused registration, next to how it would have gone on without the call. -/
structure Traces (r after : Recorder K) (id : QuantityId) (initial : K) (strength : Strength) : Prop where
  registered : after.registered = r.registered ++ [id]
  adjustable : ∀ later other,
    Solver.isAdjustable (after.performAll later) other = Solver.isAdjustable (r.performAll later) other
  /-- All values are the same, but a quantity that was registered again may stay at the initial value of that call. -/
  values : ∀ later other,
    Solver.value? (after.performAll later) other = Solver.value? (r.performAll later) other ∨
      other = id ∧ strength ≠ .required ∧ Solver.value? (r.performAll later) id = Solver.value? r id ∧
        Solver.value? (after.performAll later) id = some initial
  overwritten : strength ≠ .required → Solver.value? after id = some initial
  resolved : strength ≠ .required → Solver.value? after.resolve.2 id =
    some ((lastFor? id r.forced).getD ((lastFor? id r.pending).getD initial))

theorem registered_of_calls {calls : List (Call K)} (grown : after.calls = r.calls ++ calls) :
    after.registered = r.registered ++ ({ calls } : Recorder K).registered := by
  rw [registered, grown, List.filterMap_append]
  rfl

theorem registered_perform (r : Recorder K) (order : Order K) :
    (r.perform order).registered = match order with
      | .call (.register id _ _) => r.registered ++ [id]
      | .clearCalls => []
      | _ => r.registered := by
  have silent (input : Solver.Input K) (call : Call K) (grown : (r.perform (.call input)).calls = r.calls ++ [call])
      (other : ({ calls := [call] } : Recorder K).registered = []) :
      (r.perform (.call input)).registered = r.registered := by
    rw [registered_of_calls grown, other, List.append_nil]
  cases order with
  | call input =>
    cases input with
    | register id initial strength => exact registered_of_calls (calls_of_register Prod.mk.eta.symm)
    | suggest id value => exact silent _ (.suggest id value) (congrArg calls (suggest_after r id value)) rfl
    | resolve => exact silent _ .resolve rfl rfl
    | addRules rules => exact silent _ (.addRules rules.length) rfl rfl
  | clearCalls | reject | force => rfl

theorem isAdjustable_perform {id : QuantityId} (known : Solver.isAdjustable r id = true) (order : Order K) :
    Solver.isAdjustable (r.perform order) id = true := by
  cases order with
  | call input =>
    cases input with
    | register other initial strength =>
      change ((r.register other initial strength).2.values.lookup id).isSome = true
      rw [register_after]
      dsimp only
      split
      · exact known
      · exact ValueMap.isSome_lookup_set known
    | suggest other value =>
      change ((r.suggest other value).2.values.lookup id).isSome = true
      rw [values_suggest]
      exact known
    | resolve =>
      obtain ⟨value, found⟩ := Option.isSome_iff_exists.mp known
      change (r.resolve.2.values.lookup id).isSome = true
      rw [lookup_resolve, found, Option.isSome_map]
      cases lastFor? id r.pending <;> rfl
    | addRules => exact known
  | clearCalls | reject | force => exact known

theorem traces_refused {id : QuantityId} {initial : K} {strength : Strength} {e : SolverError K}
    (refused : r.register id initial strength = (.error e, after)) : Traces r after id initial strength := by
  have alike := alikeUpTo_refused refused
  have overwritten (optional : strength ≠ .required) : after.values.lookup id = some initial := by
    obtain rfl : (r.register id initial strength).2 = after := congrArg Prod.snd refused
    rw [register_after]
    dsimp only
    rw [if_neg optional, ValueMap.lookup_set_self]
  refine ⟨registered_of_calls (calls_of_register refused), ?_, ?_, overwritten, ?_⟩
  · exact fun later other => ((alike.performAll later).isSome_eq other).symm
  · intro later other
    rcases (alike.performAll later).values other with same | ⟨x, y, left, right, rfl, optional, former, rfl⟩
    · exact .inl same.symm
    · exact .inr ⟨rfl, optional, left.trans former.symm, right⟩
  · intro optional
    change after.resolve.2.values.lookup id = _
    rw [lookup_resolve, overwritten optional, alike.pending, alike.forced]
    cases lastFor? id after.pending <;> rfl

/-- A recorder with the quantities whose registration was accepted, and refused, since its record was last cleared. -/
structure Roll (K : Type) where
  recorder : Recorder K := {}
  accepted : List QuantityId := []
  refused : List QuantityId := []

namespace Roll

def step (l : Roll K) (order : Order K) : Roll K :=
  let after := l.recorder.perform order
  match order with
  | .call (.register id initial strength) =>
    match (l.recorder.register id initial strength).1 with
    | .ok () => ⟨after, l.accepted ++ [id], l.refused⟩
    | .error _ => ⟨after, l.accepted, l.refused ++ [id]⟩
  | .clearCalls => ⟨after, [], []⟩
  | _ => ⟨after, l.accepted, l.refused⟩

def run (l : Roll K) (orders : List (Order K)) : Roll K := orders.foldl step l

/-- The record has the accepted quantities, each once and adjustable, and the refused ones between them. -/
structure IsKept (l : Roll K) : Prop where
  once : l.accepted.Nodup
  adjustable : ∀ id ∈ l.accepted, Solver.isAdjustable l.recorder id = true
  record : l.recorder.registered.Perm (l.accepted ++ l.refused)
  unrefused : l.refused = [] → l.recorder.registered = l.accepted

variable {l : Roll K}

/-- Accepted is a quantity that is not adjustable yet, so none of those accepted before. -/
theorem IsKept.register (kept : l.IsKept) (id : QuantityId) (initial : K) (strength : Strength) :
    (l.step (.call (.register id initial strength))).IsKept := by
  obtain ⟨once, adjustable, record, unrefused⟩ := kept
  have registered := registered_perform l.recorder (.call (.register id initial strength))
  have stays (other : QuantityId) (member : other ∈ l.accepted) :=
    isAdjustable_perform (adjustable other member) (.call (.register id initial strength))
  have longer : (l.recorder.registered ++ [id]).Perm ((l.accepted ++ l.refused) ++ [id]) := record.append_right [id]
  cases reply : l.recorder.register id initial strength with
  | mk answer after =>
    have entered : l.recorder.perform (.call (.register id initial strength)) = after := congrArg Prod.snd reply
    rw [entered] at registered stays
    cases answer with
    | error e =>
      have step : l.step (.call (.register id initial strength)) = ⟨after, l.accepted, l.refused ++ [id]⟩ := by
        simp only [Roll.step, reply, entered]
      rw [step]
      refine ⟨once, stays, ?_, fun empty => (List.append_ne_nil_of_right_ne_nil _ (List.cons_ne_nil _ _) empty).elim⟩
      rw [registered, ← List.append_assoc]
      exact longer
    | ok =>
      have step : l.step (.call (.register id initial strength)) = ⟨after, l.accepted ++ [id], l.refused⟩ := by
        simp only [Roll.step, reply, entered]
      have fresh : id ∉ l.accepted := by
        intro member
        have unknown := register_ok reply
        have known : (l.recorder.values.lookup id).isSome = true := adjustable id member
        rw [unknown] at known
        cases known
      rw [step]
      refine ⟨List.nodup_append.mpr ⟨once, List.nodup_singleton id, ?_⟩, fun other member => ?_, ?_, fun empty => ?_⟩
      · rintro other member _ last rfl
        exact fresh (List.mem_singleton.mp last ▸ member)
      · rcases List.mem_append.mp member with old | new
        · exact stays other old
        · obtain rfl := List.mem_singleton.mp new
          exact (congrArg Option.isSome (lookup_registered reply)).trans rfl
      · rw [registered, List.append_assoc]
        refine longer.trans ?_
        rw [List.append_assoc]
        exact List.perm_append_comm.append_left l.accepted
      · rw [registered, unrefused empty]

theorem IsKept.step (kept : l.IsKept) (order : Order K) : (l.step order).IsKept := by
  have registered := registered_perform l.recorder order
  have stays (id : QuantityId) (member : id ∈ l.accepted) :=
    isAdjustable_perform (kept.adjustable id member) order
  cases order with
  | call input =>
    cases input with
    | register id initial strength => exact kept.register id initial strength
    | suggest | resolve | addRules =>
      exact ⟨kept.once, stays, registered ▸ kept.record, fun empty => registered.trans (kept.unrefused empty)⟩
  | clearCalls => exact ⟨.nil, fun _ member => (nomatch member), registered ▸ .nil, fun _ => registered⟩
  | reject | force =>
    exact ⟨kept.once, stays, registered ▸ kept.record, fun empty => registered.trans (kept.unrefused empty)⟩

theorem isKept_run (orders : List (Order K)) : (({} : Roll K).run orders).IsKept :=
  List.foldlRecOn (motive := IsKept) orders _ ⟨.nil, fun _ member => (nomatch member), .nil, fun _ => rfl⟩
    fun _ kept order _ => kept.step order

theorem recorder_run (l : Roll K) (orders : List (Order K)) : (l.run orders).recorder = l.recorder.performAll orders := by
  have stepped (l : Roll K) (order : Order K) : (l.step order).recorder = l.recorder.perform order := by
    unfold step
    dsimp only
    split
    · split <;> rfl
    · rfl
    · rfl
  induction orders generalizing l with
  | nil => rfl
  | cons order rest ih => exact (ih (l.step order)).trans (congrArg (performAll · rest) (stepped l order))

end Roll

end Recorder

/-- Whatever was done before. A solver on an engine that refuses a registration is the one that it was. A recorder that
refuses one goes on as if there had been no call, but for an entry in its record and, if the quantity was registered
again, for its value: it is the new one of the initial values until something is written over it. The record has the
registrations accepted since it was last cleared, one for each quantity, and those refused. -/
theorem refused_registration_traces [Scalar K] :
    (∀ (τ : Type) [Engine τ K], Engine.Admits τ →
      ∀ (inputs : List (Solver.Input K)) (id : QuantityId) (initial : K) (strength : Strength) (e : SolverError K)
        (after : EngineSolver τ K),
        (Solver.giveAll {} inputs : EngineSolver τ K).register id initial strength = (.error e, after) →
          after = Solver.giveAll {} inputs) ∧
    ∀ (orders : List (Recorder.Order K)) (id : QuantityId) (initial : K) (strength : Strength) (e : SolverError K)
      (after : Recorder K),
      let l := ({} : Recorder.Roll K).run orders
      l.recorder = Recorder.performAll {} orders ∧ l.IsKept ∧
        (l.recorder.register id initial strength = (.error e, after) →
          Recorder.Traces l.recorder after id initial strength) := by
  refine ⟨?_, ?_⟩
  · intro τ _ admits inputs id initial strength e after refused
    exact EngineSolver.register_refused_eq admits (EngineSolver.enrolled_giveAll admits inputs) refused
  · intro orders id initial strength e after l
    exact ⟨Recorder.Roll.recorder_run {} orders, Recorder.Roll.isKept_run orders, Recorder.traces_refused⟩

/-- Both solvers refuse to register a quantity again. The recorder has refused another one before, for its strength. -/
theorem refused_registration_traces_again :
    let s : Minimizer Rat := Solver.giveAll {} [.register 0 1 .strong, .suggest 0 5, .resolve]
    let orders : List (Recorder.Order Rat) := [.call (.register 0 1 .strong), .call (.register 1 4 .required)]
    let r := Recorder.performAll {} orders
    (s.register 0 2 .strong).2 = s ∧ Recorder.Traces r (r.register 0 2 .strong).2 0 2 .strong := by
  intro s orders r
  have refused : (match (s.register 0 2 .strong).1, (r.register 0 2 .strong).1 with
    | .error _, .error _ => true
    | _, _ => false) = true := by decide +kernel
  obtain ⟨engine, recorder⟩ := refused_registration_traces (K := Rat)
  split at refused
  · rename_i solverError recorderError solverFailed recorderFailed
    exact ⟨engine (Optimizer Rat) (Optimizer.admits Strength.ranked_rat) _ 0 2 .strong solverError _
        (Prod.ext solverFailed rfl),
      (recorder orders 0 2 .strong recorderError _).2.2 (Prod.ext recorderFailed rfl)⟩
  · cases refused

/-- The quantity is at one, and a second registration that is refused leaves it at two. -/
theorem refused_registration_overwrites :
    let r : Recorder Rat := Recorder.performAll {} [.call (.register 0 1 .strong)]
    let after := (r.register 0 2 .strong).2
    (r.register 0 2 .strong).1.isOk = false ∧ Solver.value? r 0 = some 1 ∧ Solver.value? after 0 = some 2 ∧
      Solver.value? r.resolve.2 0 = some 1 ∧ Solver.value? after.resolve.2 0 = some 2 ∧
      r.registered = [0] ∧ after.registered = [0, 0] := by decide +kernel

end ReactiveLayout
