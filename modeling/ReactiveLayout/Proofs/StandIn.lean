import ReactiveLayout.Proofs.Minimizer
import ReactiveLayout.Proofs.RefusedRegistration
import ReactiveLayout.Proofs.Stillness

/-! A recorder in the place of a solver on an engine. Without rules an engine settles every quantity at its last
suggestion, and so does a recorder that was told to force and to reject nothing. Calls in the same order get the same
answers from both until a quantity is registered again: the solver then changes nothing, while the recorder takes the
new initial value and shows it until a suggestion is resolved over it. -/
namespace ReactiveLayout

/-- No value twice, or two that compare as equal. The sign of a zero may differ. -/
def SameValue {K : Type} [BEq K] : Option K → Option K → Prop
  | none, none => True
  | some x, some y => (x == y) = true
  | _, _ => False

namespace Engine
variable {K : Type} [Scalar K]

/-- The states of an engine that was given nothing but edits, each with the finite suggestions that it has taken. -/
inductive Drawn {τ : Type} [Engine τ K] : List (QuantityId × K) → τ → Prop where
  | fresh : Drawn [] fresh
  | addEdit {asked : List (QuantityId × K)} {e after : τ} {id : QuantityId} {level : K} (drawn : Drawn asked e)
      (added : addEdit id level e = (.ok (), after)) : Drawn asked after
  | suggest {asked : List (QuantityId × K)} {e after : τ} {id : QuantityId} {value : K} (drawn : Drawn asked e)
      (finite : Scalar.isFinite value = true) (suggested : suggest id value e = (.ok (), after)) :
      Drawn (asked ++ [(id, value)]) after
  | settle {asked : List (QuantityId × K)} {e : τ} (drawn : Drawn asked e) : Drawn asked (settle e)

/-- With editable variables only, an engine takes every finite suggestion for one and settles each at its last one. -/
structure Echoes (τ : Type) [Engine τ K] : Prop where
  takes : ∀ {asked : List (QuantityId × K)} {e : τ} {id : QuantityId} {value : K}, Drawn asked e → isEdit e id = true →
    Scalar.isFinite value = true → ∃ after, suggest id value e = (.ok (), after)
  settles : ∀ {asked : List (QuantityId × K)} {e : τ} {id : QuantityId} {last : K}, Drawn asked e →
    lastFor? id asked = some last → (last == value (settle e) id) = true

end Engine

theorem Scalar.beq_self_of_isFinite {x : Float} (finite : Scalar.isFinite x = true) : (x == x) = true := by
  rw [Scalar.float_beq_self, Scalar.not_isNaN_of_isFinite finite]
  rfl

namespace Optimizer

/-- An optimizer without constraints whose variables are drawn to finite values, those suggested last. -/
structure IsDrawn (asked : List (QuantityId × Float)) (m : Optimizer Float) : Prop where
  free : m.constraints = []
  finite : ∀ a ∈ m.adjustables, Scalar.isFinite a.suggested = true
  last : ∀ id value, lastFor? id asked = some value → (m.find? id).map (·.suggested) = some value

variable {asked : List (QuantityId × Float)} {m after : Optimizer Float}

theorem IsDrawn.addEdit (drawn : IsDrawn asked m) {id : QuantityId} {level : Float}
    (added : m.addEdit id level = (.ok (), after)) : IsDrawn asked after := by
  unfold Optimizer.addEdit at added
  split at added
  · cases added
  split at added
  · cases added
    refine ⟨drawn.free, fun a member => ?_, fun other value last => ?_⟩
    · rcases List.mem_append.mp member with old | new
      · exact drawn.finite a old
      · obtain rfl := List.mem_singleton.mp new
        have zero : Scalar.isFinite (0 : Float) = true := by decide +kernel
        exact zero
    · have known := drawn.last other value last
      rw [find?, List.find?_append]
      change (m.find? other).map _ = _ at known
      cases found : m.find? other with
      | none => rw [found] at known; cases known
      | some a =>
        rw [found] at known
        rw [find?] at found
        rw [found]
        exact known
  · cases added

theorem IsDrawn.suggest (drawn : IsDrawn asked m) {id : QuantityId} {value : Float}
    (finite : Scalar.isFinite value = true) (suggested : m.suggest id value = (.ok (), after)) :
    IsDrawn (asked ++ [(id, value)]) after := by
  unfold Optimizer.suggest at suggested
  split at suggested
  · cases suggested
  rename_i editable
  cases suggested
  -- What a suggestion makes of a variable, as far as it matters here.
  generalize moved : (fun a : Adjustable Float => if a.id = id then
    (if m.constraints.isEmpty then { redraw value a with anchor := Scalar.toRat value } else redraw value a) else a) = f
  have sameId (a : Adjustable Float) : (f a).id = a.id := by
    rw [← moved]
    dsimp only
    split
    · split <;> rfl
    · rfl
  have drawnTo (a : Adjustable Float) (member : a ∈ m.adjustables) :
      (f a).suggested = if a.id = id then value else a.suggested := by
    have redrawn : (redraw value a).suggested = value := if_pos (drawn.finite a member)
    rw [← moved]
    dsimp only
    split
    · split <;> exact redrawn
    · rfl
  refine ⟨drawn.free, fun a member => ?_, fun other asked? last => ?_⟩
  · obtain ⟨source, stored, rfl⟩ := List.mem_map.mp member
    rw [drawnTo source stored]
    split
    · exact finite
    · exact drawn.finite source stored
  · obtain ⟨a, found⟩ : ∃ a, m.find? other = some a := by
      by_cases here : other = id
      · rw [here]
        exact Option.ne_none_iff_exists'.mp (by simpa using editable)
      · rw [lastFor?_append, lastFor?_cons, if_neg here] at last
        obtain ⟨a, found, _⟩ := Option.map_eq_some_iff.mp (drawn.last other asked? last)
        exact ⟨a, found⟩
    have number : a.id = other := by simpa using List.find?_some found
    have stored : a ∈ m.adjustables := List.mem_of_find?_eq_some found
    rw [find?_map f sameId, found, Option.map_some, Option.map_some, drawnTo a stored, number]
    rw [lastFor?_append, lastFor?_cons] at last
    by_cases here : other = id
    · rw [if_pos here] at last ⊢
      exact last
    · rw [if_neg here] at last ⊢
      have known := drawn.last other asked? last
      rwa [found] at known

theorem IsDrawn.settle (drawn : IsDrawn asked m) : IsDrawn asked m.settle ∧
    ∀ id value, lastFor? id asked = some value → m.settle.valueAt id = unsigned value := by
  have settled : m.settle =
      { m with adjustables := m.adjustables.map fun a => { a with value := unsigned a.suggested } } := by
    unfold Optimizer.settle
    rw [drawn.free]
    rfl
  have found? (id : QuantityId) := find?_map (fun a : Adjustable Float => { a with value := unsigned a.suggested })
    (fun _ => rfl) m id
  rw [settled]
  refine ⟨⟨drawn.free, fun a member => ?_, fun id value last => ?_⟩, fun id value last => ?_⟩
  · obtain ⟨source, stored, rfl⟩ := List.mem_map.mp member
    exact drawn.finite source stored
  · rw [found?, Option.map_map]
    exact drawn.last id value last
  · obtain ⟨a, found, suggested⟩ := Option.map_eq_some_iff.mp (drawn.last id value last)
    rw [valueAt, found?, found]
    exact congrArg unsigned suggested

theorem isDrawn_of_drawn {asked : List (QuantityId × Float)} {m : Optimizer Float} (drawn : Engine.Drawn asked m) :
    IsDrawn asked m := by
  induction drawn with
  | fresh => exact ⟨rfl, fun _ member => (nomatch member), fun _ _ last => nomatch last⟩
  | addEdit _ added ih => exact ih.addEdit added
  | suggest _ finite suggested ih => exact ih.suggest finite suggested
  | settle _ ih => exact ih.settle.1

theorem echoes : Engine.Echoes (Optimizer Float) where
  takes {asked m id value} _ edit _ := by
    change ∃ after, m.suggest id value = (.ok (), after)
    have editable : (m.find? id).isSome = true := edit
    simp [suggest, Option.isNone_eq_false_iff.mpr editable]
  settles {asked m id value} drawn last := by
    have isDrawn := isDrawn_of_drawn drawn
    change (value == m.settle.valueAt id) = true
    obtain ⟨a, found, rfl⟩ := Option.map_eq_some_iff.mp (isDrawn.last id value last)
    rw [isDrawn.settle.2 id _ last, unsigned]
    split
    · assumption
    · exact Scalar.beq_self_of_isFinite (isDrawn.finite a (List.mem_of_find?_eq_some found))

end Optimizer

/-- No rules are given. -/
def Solver.Input.IsEdit {K : Type} : Solver.Input K → Prop
  | .addRules _ => False
  | _ => True

namespace Recorder
variable {K : Type}

/-- The values that repeated registrations have written over others and that no resolution has written over since. -/
def overwrite (r : Recorder K) (written : QuantityId → Option K) : Solver.Input K → QuantityId → Option K
  | .register id initial strength =>
    if strength ≠ .required ∧ (r.values.lookup id).isSome then Function.update written id (some initial) else written
  | .resolve => fun id => if (lastFor? id r.pending).isSome then none else written id
  | _ => written

def overwrittenFrom (r : Recorder K) (written : QuantityId → Option K) : List (Solver.Input K) → QuantityId → Option K
  | [] => written
  | input :: rest => overwrittenFrom (Solver.give r input).2 (r.overwrite written input) rest

/-- The values of repeated registrations that a fresh recorder shows behind these inputs. -/
def overwritten (inputs : List (Solver.Input K)) : QuantityId → Option K := overwrittenFrom {} (fun _ => none) inputs

theorem overwrite_required (r : Recorder K) (written : QuantityId → Option K) (id : QuantityId) (initial : K) :
    r.overwrite written (.register id initial .required) = written := by
  rw [overwrite, if_neg]
  exact fun repeated => repeated.1 rfl

theorem overwrite_fresh {r : Recorder K} {id : QuantityId} (unknown : (r.values.lookup id).isSome = false)
    (written : QuantityId → Option K) (initial : K) (strength : Strength) :
    r.overwrite written (.register id initial strength) = written :=
  if_neg fun repeated => Bool.eq_false_iff.mp unknown repeated.2

theorem overwrittenFrom_eq_none {r : Recorder K} {inputs : List (Solver.Input K)}
    (once : ∀ front id initial strength back, inputs = front ++ .register id initial strength :: back →
      Solver.isAdjustable (Solver.giveAll r front) id = false) :
    overwrittenFrom r (fun _ => none) inputs = fun _ => none := by
  induction inputs generalizing r with
  | nil => rfl
  | cons input rest ih =>
    have kept : r.overwrite (fun _ => none) input = fun _ => none := by
      cases input with
      | register id initial strength => exact overwrite_fresh (once [] id initial strength rest rfl) _ initial strength
      | resolve =>
        funext id
        exact ite_self _
      | suggest | addRules => rfl
    rw [overwrittenFrom, kept]
    exact ih fun front id initial strength back split => once (input :: front) id initial strength back (split ▸ rfl)

end Recorder

section
variable {τ : Type} [Engine τ Float]

/-- The answers of a recorder next to those of a solver on an engine, where a repeated registration has left these
values behind. -/
structure StandsFor (written : QuantityId → Option Float) (r : Recorder Float) (s : EngineSolver τ Float) : Prop where
  adjustable : ∀ id, Solver.isAdjustable r id = Solver.isAdjustable s id
  register : ∀ id initial strength, Scalar.isFinite initial = true →
    Solver.isAdjustable r id = false ∨ strength ≠ .required →
      (Solver.register id initial strength r).1 = (Solver.register id initial strength s).1
  /-- Of the two faults of such a call each names the other one. -/
  required : ∀ id initial, Solver.isAdjustable r id = true →
    (Solver.register id initial .required r).1 = .error (.requiredAdjustable id) ∧
      (Solver.register id initial .required s).1 = .error (.duplicateAdjustable id)
  /-- The solver is not changed by a repeated registration, whatever the recorder makes of it. -/
  unmoved : ∀ id initial strength, Solver.isAdjustable r id = true → (Solver.register id initial strength s).2 = s
  suggest : ∀ id value, Scalar.isFinite value = true → (Solver.suggest id value r).1 = (Solver.suggest id value s).1
  resolve : (Solver.resolve r).1 = (Solver.resolve s).1
  value : ∀ id, written id = none → SameValue (Solver.value? r id) (Solver.value? s id)
  overwritten : ∀ id x, written id = some x → Solver.value? r id = some x

/-- How a recorder stands to the engine that was given the same edits. -/
structure Shadows (asked : List (QuantityId × Float)) (written : QuantityId → Option Float) (r : Recorder Float)
    (s : EngineSolver τ Float) : Prop where
  sound : r.Sound
  unforced : r.forced = []
  unrejected : r.rejected = []
  drawn : Engine.Drawn asked s.engine
  known : ∀ id, (r.values.lookup id).isSome = s.knows id
  edits : ∀ id, Engine.isEdit s.engine id = s.knows id
  pending : ∀ id x, lastFor? id r.pending = some x → lastFor? id asked = some x
  /-- With nothing pending and nothing overwritten the recorder is at the last suggestion. -/
  idle : ∀ id, lastFor? id r.pending = none → written id = none → lastFor? id asked = r.values.lookup id
  value : ∀ id, written id = none → SameValue (r.values.lookup id) (s.adjustables.lookup id)
  overwritten : ∀ id x, written id = some x → r.values.lookup id = some x

namespace EngineSolver
variable {s : EngineSolver τ Float}

theorem register_fresh (admits : Engine.Admits τ) {id : QuantityId} (unknown : s.knows id = false)
    (notEdit : Engine.isEdit s.engine id = false) (initial : Float) {strength : Strength}
    (optional : strength ≠ .required) :
    ∃ added suggested, Engine.addEdit id strength.level s.engine = (.ok (), added) ∧
      Engine.suggest id initial added = (.ok (), suggested) ∧
      s.register id initial strength =
        (.ok (), { s with engine := suggested, adjustables := s.adjustables ++ [(id, initial)] }) := by
  obtain ⟨added, edit⟩ := admits.taken optional notEdit
  obtain ⟨suggested, taken⟩ := admits.initial edit
  refine ⟨added, suggested, edit, taken, ?_⟩
  rw [register, unknown, if_neg Bool.false_ne_true, if_neg optional, edit]
  dsimp only
  rw [taken]

theorem register_again {id : QuantityId} (known : s.knows id = true) (initial : Float) (strength : Strength) :
    s.register id initial strength = (.error (.duplicateAdjustable id), s) := by
  rw [register, if_pos known]

theorem suggest_unknown {id : QuantityId} (unknown : s.knows id = false) (value : Float) :
    s.suggest id value = (.error (.unknownQuantity id), s) := by
  rw [suggest, unknown, if_neg Bool.false_ne_true]

theorem suggest_known {id : QuantityId} (known : s.knows id = true) {value : Float} {engine : τ}
    (taken : Engine.suggest id value s.engine = (.ok (), engine)) :
    s.suggest id value = (.ok (), { s with engine }) := by
  rw [suggest, if_pos known, taken]

end EngineSolver

namespace Shadows
variable {asked : List (QuantityId × Float)} {written : QuantityId → Option Float} {r : Recorder Float}
  {s : EngineSolver τ Float}

theorem suggest_eq (shadows : Shadows asked written r s) {id : QuantityId} (known : s.knows id = true) (value : Float) :
    r.suggest id value = (.ok (), { r.log (.suggest id value) with pending := r.pending ++ [(id, value)] }) := by
  have inUse : (r.values.lookup id).isNone = false := by
    rw [← Option.not_isSome, shadows.known, known]
    rfl
  rw [Recorder.suggest, inUse, if_neg Bool.false_ne_true, shadows.unrejected, if_neg List.not_mem_nil]
  rfl

theorem suggest_refused (shadows : Shadows asked written r s) {id : QuantityId} (unknown : s.knows id = false)
    (value : Float) : r.suggest id value = (.error (.unknownQuantity id), r.log (.suggest id value)) := by
  have free : (r.values.lookup id).isNone = true := by
    rw [← Option.not_isSome, shadows.known, unknown]
    rfl
  rw [Recorder.suggest, if_pos free]

theorem standsFor (shadows : Shadows asked written r s) (admits : Engine.Admits τ) (echoes : Engine.Echoes τ) :
    StandsFor written r s where
  adjustable id := by
    change (r.values.lookup id).isSome = (s.knows id && Engine.isEdit s.engine id)
    rw [shadows.known, shadows.edits, Bool.and_self]
  register id initial strength _ apart := by
    change (r.register id initial strength).1 = (s.register id initial strength).1
    have known := shadows.known id
    cases registered : s.knows id with
    | true =>
      rw [registered] at known
      have optional := apart.resolve_left (Bool.eq_false_iff.not.mpr (not_not.mpr known))
      rw [s.register_again registered, Recorder.register, if_neg optional, if_pos known]
    | false =>
      rw [registered] at known
      by_cases required : strength = .required
      · rw [Recorder.register, if_pos required, EngineSolver.register, registered, if_neg Bool.false_ne_true,
          if_pos required]
      · obtain ⟨_, _, _, _, accepted⟩ :=
          EngineSolver.register_fresh admits registered ((shadows.edits id).trans registered) initial required
        rw [accepted, Recorder.register, if_neg required, if_neg (Bool.eq_false_iff.mp known)]
  required id initial known := by
    have registered : s.knows id = true := (shadows.known id).symm.trans known
    exact ⟨rfl, congrArg Prod.fst (EngineSolver.register_again registered initial .required)⟩
  unmoved id initial strength known := by
    have registered : s.knows id = true := (shadows.known id).symm.trans known
    exact congrArg Prod.snd (EngineSolver.register_again registered initial strength)
  suggest id value finite := by
    change (r.suggest id value).1 = (s.suggest id value).1
    cases registered : s.knows id with
    | true =>
      obtain ⟨engine, taken⟩ := echoes.takes shadows.drawn ((shadows.edits id).trans registered) finite
      rw [EngineSolver.suggest_known registered taken, shadows.suggest_eq registered value]
    | false => rw [EngineSolver.suggest_unknown registered value, shadows.suggest_refused registered value]
  resolve := rfl
  value := shadows.value
  overwritten := shadows.overwritten

theorem log (shadows : Shadows asked written r s) (call : Call Float) : Shadows asked written (r.log call) s :=
  { shadows with sound := ⟨shadows.sound.registered, shadows.sound.forced⟩ }

theorem register_required (shadows : Shadows asked written r s) (id : QuantityId) (initial : Float) :
    Shadows asked (r.overwrite written (.register id initial .required)) (r.register id initial .required).2
      (s.register id initial .required).2 := by
  have unmoved : (s.register id initial .required).2 = s := by
    cases registered : s.knows id with
    | true => rw [EngineSolver.register_again registered]
    | false => rw [EngineSolver.register, registered, if_neg Bool.false_ne_true, if_pos rfl]
  rw [Recorder.overwrite_required, unmoved]
  exact shadows.log _

/-- A registration under a number that is in use changes nothing but the value that the recorder shows. -/
theorem register_again (shadows : Shadows asked written r s) {id : QuantityId} (known : s.knows id = true)
    (initial : Float) {strength : Strength} (optional : strength ≠ .required) :
    Shadows asked (r.overwrite written (.register id initial strength)) (r.register id initial strength).2
      (s.register id initial strength).2 := by
  have inUse : (r.values.lookup id).isSome = true := (shadows.known id).trans known
  have changed : r.overwrite written (.register id initial strength) = Function.update written id (some initial) :=
    if_pos ⟨optional, inUse⟩
  have sound := shadows.sound.register id initial strength
  rw [EngineSolver.register_again known, changed]
  rw [Recorder.register_after, if_neg optional] at sound ⊢
  -- Only the value of the quantity itself is another one, and that is among the overwritten ones.
  have others (other : QuantityId) (different : other ≠ id) :
      (r.values.set id initial).lookup other = r.values.lookup other := ValueMap.lookup_set_ne _ _ different
  have unwritten (other : QuantityId) (plain : Function.update written id (some initial) other = none) :
      other ≠ id ∧ written other = none := by
    by_cases here : other = id
    · subst here
      rw [Function.update_self] at plain
      cases plain
    · rw [Function.update_of_ne here] at plain
      exact ⟨here, plain⟩
  constructor
  case sound => exact sound
  case unforced => exact shadows.unforced
  case unrejected => exact shadows.unrejected
  case drawn => exact shadows.drawn
  case edits => exact shadows.edits
  case pending => exact shadows.pending
  case known =>
    intro other
    by_cases here : other = id
    · rw [here, ValueMap.lookup_set_self, known]
      rfl
    · exact (congrArg Option.isSome (others other here)).trans (shadows.known other)
  case idle =>
    intro other nothing plain
    obtain ⟨different, plain⟩ := unwritten other plain
    exact (shadows.idle other nothing plain).trans (others other different).symm
  case value =>
    intro other plain
    obtain ⟨different, plain⟩ := unwritten other plain
    rw [others other different]
    exact shadows.value other plain
  case overwritten =>
    intro other x stale
    by_cases here : other = id
    · subst here
      rw [Function.update_self] at stale
      exact (ValueMap.lookup_set_self _ _ _).trans stale
    · rw [Function.update_of_ne here] at stale
      exact (others other here).trans (shadows.overwritten other x stale)

/-- A registration that finds its quantity free and optional starts both at the initial value. -/
theorem register_fresh (shadows : Shadows asked written r s) (admits : Engine.Admits τ) (keeps : Engine.KeepsEdits τ)
    {id : QuantityId} (unknown : s.knows id = false) {initial : Float} (finite : Scalar.isFinite initial = true)
    {strength : Strength} (optional : strength ≠ .required) :
    Shadows (asked ++ [(id, initial)]) (r.overwrite written (.register id initial strength))
      (r.register id initial strength).2 (s.register id initial strength).2 := by
  obtain ⟨added, suggested, edit, taken, accepted⟩ :=
    EngineSolver.register_fresh admits unknown ((shadows.edits id).trans unknown) initial optional
  have unused : (r.values.lookup id).isSome = false := (shadows.known id).trans unknown
  have free : r.values.lookup id = none := Option.not_isSome_iff_eq_none.mp (Bool.eq_false_iff.mp unused)
  have sound := shadows.sound.register id initial strength
  rw [accepted, Recorder.overwrite_fresh unused]
  rw [Recorder.register_after, if_neg optional] at sound ⊢
  have silent : lastFor? id r.pending = none := shadows.sound.lastFor?_pending free
  have knows (other : QuantityId) :
      (s.adjustables ++ [(id, initial)]).lookup other =
        if other = id then some initial else s.adjustables.lookup other := by
    rw [EngineSolver.lookup_concat]
    split
    · rename_i here
      have absent : s.adjustables.lookup id = none := Option.not_isSome_iff_eq_none.mp (Bool.eq_false_iff.mp unknown)
      rw [here, absent, Option.none_or]
    · exact Option.or_none
  have holds (other : QuantityId) :
      (r.values.set id initial).lookup other = if other = id then some initial else r.values.lookup other := by
    split
    · rename_i here
      rw [here, ValueMap.lookup_set_self]
    · exact ValueMap.lookup_set_ne _ _ ‹_›
  constructor
  case sound => exact sound
  case unforced => exact shadows.unforced
  case unrejected => exact shadows.unrejected
  case drawn => exact (shadows.drawn.addEdit edit).suggest finite taken
  case known =>
    intro other
    change ((r.values.set id initial).lookup other).isSome = ((s.adjustables ++ [(id, initial)]).lookup other).isSome
    rw [holds, knows]
    split
    · rfl
    · exact shadows.known other
  case edits =>
    intro other
    change Engine.isEdit suggested other = ((s.adjustables ++ [(id, initial)]).lookup other).isSome
    rw [admits.suggested taken, knows]
    split
    · rename_i here
      rw [here, keeps.added edit]
      rfl
    · rename_i different
      rw [admits.others edit different]
      exact shadows.edits other
  case pending =>
    intro other x asks
    rw [lastFor?_concat]
    split
    · rename_i here
      rw [here] at asks
      cases silent.symm.trans asks
    · exact shadows.pending other x asks
  case idle =>
    intro other nothing plain
    change _ = (r.values.set id initial).lookup other
    rw [lastFor?_concat, holds]
    split
    · rfl
    · exact shadows.idle other nothing plain
  case value =>
    intro other plain
    change SameValue ((r.values.set id initial).lookup other) ((s.adjustables ++ [(id, initial)]).lookup other)
    rw [holds, knows]
    split
    · exact Scalar.beq_self_of_isFinite finite
    · exact shadows.value other plain
  case overwritten =>
    intro other x stale
    change (r.values.set id initial).lookup other = some x
    have old := shadows.overwritten other x stale
    rw [holds, if_neg]
    · exact old
    · rintro rfl
      cases free.symm.trans old

theorem register (shadows : Shadows asked written r s) (admits : Engine.Admits τ) (keeps : Engine.KeepsEdits τ)
    (id : QuantityId) {initial : Float} (finite : Scalar.isFinite initial = true) (strength : Strength) :
    ∃ asked, Shadows asked (r.overwrite written (.register id initial strength)) (r.register id initial strength).2
      (s.register id initial strength).2 := by
  by_cases required : strength = .required
  · subst required
    exact ⟨asked, shadows.register_required id initial⟩
  · cases registered : s.knows id with
    | true => exact ⟨asked, shadows.register_again registered initial required⟩
    | false => exact ⟨_, shadows.register_fresh admits keeps registered finite required⟩

theorem suggest (shadows : Shadows asked written r s) (admits : Engine.Admits τ) (echoes : Engine.Echoes τ)
    (id : QuantityId) {value : Float} (finite : Scalar.isFinite value = true) :
    ∃ asked, Shadows asked written (r.suggest id value).2 (s.suggest id value).2 := by
  cases registered : s.knows id with
  | false =>
    rw [EngineSolver.suggest_unknown registered, shadows.suggest_refused registered]
    exact ⟨asked, shadows.log _⟩
  | true =>
    obtain ⟨engine, taken⟩ := echoes.takes shadows.drawn ((shadows.edits id).trans registered) finite
    have sound := shadows.sound.suggest id value
    rw [EngineSolver.suggest_known registered taken]
    rw [shadows.suggest_eq registered] at sound ⊢
    refine ⟨asked ++ [(id, value)], ?_⟩
    constructor
    case sound => exact sound
    case unforced => exact shadows.unforced
    case unrejected => exact shadows.unrejected
    case drawn => exact shadows.drawn.suggest finite taken
    case known => exact shadows.known
    case edits => exact fun other => (admits.suggested taken).trans (shadows.edits other)
    case pending =>
      intro other x asks
      change lastFor? other (r.pending ++ [(id, value)]) = some x at asks
      rw [lastFor?_concat] at asks ⊢
      split
      · rename_i here
        rwa [if_pos here] at asks
      · rename_i different
        rw [if_neg different] at asks
        exact shadows.pending other x asks
    case idle =>
      intro other nothing plain
      change lastFor? other (r.pending ++ [(id, value)]) = none at nothing
      rw [lastFor?_concat] at nothing ⊢
      split
      · rename_i here
        rw [if_pos here] at nothing
        cases nothing
      · rename_i different
        rw [if_neg different] at nothing
        exact shadows.idle other nothing plain
    case value => exact shadows.value
    case overwritten => exact shadows.overwritten

/-- Where a resolution leaves nothing overwritten, the last suggestion of all is what the recorder is to come to. -/
theorem asked_eq (shadows : Shadows asked written r s) {id : QuantityId}
    (plain : r.overwrite written .resolve id = none) :
    lastFor? id asked = (lastFor? id r.pending).or (r.values.lookup id) := by
  change (if (lastFor? id r.pending).isSome then none else written id) = none at plain
  cases asks : lastFor? id r.pending with
  | some x => exact shadows.pending id x asks
  | none =>
    rw [asks] at plain
    exact shadows.idle id asks plain

/-- A resolution brings both to the last suggestions, and over all that was overwritten and asked for since. -/
theorem resolve (shadows : Shadows asked written r s) (admits : Engine.Admits τ) (keeps : Engine.NeverDrops τ)
    (echoes : Engine.Echoes τ) : Shadows asked (r.overwrite written .resolve) r.resolve.2 s.resolve.2 := by
  have shown (id : QuantityId) : r.resolve.2.values.lookup id = (lastFor? id r.pending).or (r.values.lookup id) := by
    rw [Recorder.lookup_resolve, shadows.unforced]
    exact Option.map_id'
  have known (id : QuantityId) : (r.resolve.2.values.lookup id).isSome = s.knows id := by
    rw [shown, ← shadows.known]
    cases free : r.values.lookup id with
    | some value => rw [Option.isSome_or, Option.isSome_some, Bool.or_true]
    | none => rw [shadows.sound.lastFor?_pending free, Option.none_or]
  constructor
  case sound => exact ⟨fun _ member => (List.not_mem_nil member).elim, shadows.sound.forced⟩
  case unforced => exact shadows.unforced
  case unrejected => exact shadows.unrejected
  case drawn => exact shadows.drawn.settle
  case known =>
    intro id
    rw [EngineSolver.knows, EngineSolver.lookup_resolve, Option.isSome_map]
    exact known id
  case edits =>
    intro id
    rw [EngineSolver.knows, EngineSolver.lookup_resolve, Option.isSome_map]
    change Engine.isEdit (Engine.settle s.engine) id = s.knows id
    rw [← shadows.edits, Bool.eq_iff_iff]
    exact ⟨admits.settled, keeps.settled⟩
  case pending =>
    intro id x asks
    cases asks
  case idle =>
    intro id _ plain
    rw [shown]
    exact shadows.asked_eq plain
  case value =>
    intro id plain
    have resolved : r.resolve.2.values.lookup id = lastFor? id asked := (shown id).trans (shadows.asked_eq plain).symm
    have both := known id
    rw [resolved, EngineSolver.knows] at both
    rw [resolved, EngineSolver.lookup_resolve]
    cases asks : lastFor? id asked with
    | some x =>
      rw [asks, Option.isSome_some] at both
      obtain ⟨old, kept⟩ := Option.isSome_iff_exists.mp both.symm
      rw [kept]
      exact echoes.settles shadows.drawn asks
    | none =>
      rw [asks, Option.isSome_none] at both
      rw [Option.not_isSome_iff_eq_none.mp (Bool.eq_false_iff.mp both.symm)]
      trivial
  case overwritten =>
    intro id x stale
    change (if (lastFor? id r.pending).isSome then none else written id) = some x at stale
    split at stale
    · cases stale
    · rename_i nothing
      rw [shown, Option.not_isSome_iff_eq_none.mp nothing, Option.none_or]
      exact shadows.overwritten id x stale

theorem give (shadows : Shadows asked written r s) (admits : Engine.Admits τ) (keeps : Engine.NeverDrops τ)
    (echoes : Engine.Echoes τ) {input : Solver.Input Float} (finite : input.IsFinite) (isEdit : input.IsEdit) :
    ∃ asked, Shadows asked (r.overwrite written input) (Solver.give r input).2 (Solver.give s input).2 := by
  cases input with
  | register id initial strength => exact shadows.register admits keeps.toKeepsEdits id finite strength
  | suggest id value => exact shadows.suggest admits echoes id finite
  | resolve => exact ⟨asked, shadows.resolve admits keeps echoes⟩
  | addRules rules => exact isEdit.elim

theorem giveAll (shadows : Shadows asked written r s) (admits : Engine.Admits τ) (keeps : Engine.NeverDrops τ)
    (echoes : Engine.Echoes τ) {inputs : List (Solver.Input Float)}
    (edits : ∀ input ∈ inputs, input.IsFinite ∧ input.IsEdit) :
    ∃ asked, Shadows asked (r.overwrittenFrom written inputs) (Solver.giveAll r inputs) (Solver.giveAll s inputs) := by
  induction inputs generalizing asked written r s with
  | nil => exact ⟨asked, shadows⟩
  | cons input rest ih =>
    obtain ⟨first, later⟩ := List.forall_mem_cons.mp edits
    obtain ⟨next, shadows⟩ := shadows.give admits keeps echoes first.1 first.2
    exact ih shadows later

theorem fresh (admits : Engine.Admits τ) :
    Shadows [] (fun _ => none) ({} : Recorder Float) ({} : EngineSolver τ Float) where
  sound := ⟨fun _ member => (nomatch member), .nil⟩
  unforced := rfl
  unrejected := rfl
  drawn := .fresh
  known _ := rfl
  edits := admits.fresh
  pending _ _ asks := nomatch asks
  idle _ _ _ := rfl
  value _ _ := trivial
  overwritten _ _ stale := nomatch stale

end Shadows

/-- After any finite edits, a fresh recorder and a fresh solver on an engine answer every further one alike and show the
same values, but for two things: a quantity in use that is registered at required strength is refused for different
reasons, and the recorder shows the initial value of a repeated registration until a suggestion is resolved. Where no
quantity is registered again there is nothing of the kind. -/
theorem recorder_stands_in (admits : Engine.Admits τ) (keeps : Engine.NeverDrops τ) (echoes : Engine.Echoes τ)
    {inputs : List (Solver.Input Float)} (edits : ∀ input ∈ inputs, input.IsFinite ∧ input.IsEdit) :
    StandsFor (Recorder.overwritten inputs) (Solver.giveAll ({} : Recorder Float) inputs)
        (Solver.giveAll ({} : EngineSolver τ Float) inputs) ∧
      ((∀ front id initial strength back, inputs = front ++ .register id initial strength :: back →
        Solver.isAdjustable (Solver.giveAll ({} : Recorder Float) front) id = false) →
        ∀ id, Recorder.overwritten inputs id = none) := by
  obtain ⟨asked, shadows⟩ := (Shadows.fresh admits).giveAll admits keeps echoes edits
  exact ⟨shadows.standsFor admits echoes, fun once id => congrFun (Recorder.overwrittenFrom_eq_none once) id⟩

end

/-- A quantity that has moved is registered again, at another value. -/
def reuse : List (Solver.Input Float) :=
  [.register 0 1 .strong, .suggest 0 5, .resolve, .register 0 2 .strong, .register 1 7 .weak, .suggest 1 8]

theorem recorder_stands_in_reuse : (∀ input ∈ reuse, input.IsFinite ∧ input.IsEdit) ∧
    StandsFor (Recorder.overwritten reuse) (Solver.giveAll ({} : Recorder Float) reuse)
      (Solver.giveAll ({} : Minimizer Float) reuse) ∧
    Recorder.overwritten reuse 0 = some 2 ∧ Recorder.overwritten reuse 1 = none ∧
    SameValue (Solver.value? (Solver.giveAll ({} : Recorder Float) reuse) 1)
      (Solver.value? (Solver.giveAll ({} : Minimizer Float) reuse) 1) := by
  have edits : ∀ input ∈ reuse, input.IsFinite ∧ input.IsEdit := by
    simp only [reuse, List.forall_mem_cons, List.not_mem_nil, IsEmpty.forall_iff, implies_true, and_true,
      Solver.Input.IsFinite, Solver.Input.IsEdit]
    decide +kernel
  have stands :=
    (recorder_stands_in (Optimizer.admits Strength.ranked_float) Optimizer.neverDrops Optimizer.echoes edits).1
  have plain : Recorder.overwritten reuse 1 = none := by decide +kernel
  exact ⟨edits, stands, by decide +kernel, plain, stands.value 1 plain⟩

/-- Registered a second time, a quantity stays where it is with the solver and moves with the recorder; and a second
registration at required strength has two faults, of which each names another one. -/
theorem recorder_differs_from_minimizer :
    let inputs : List (Solver.Input Float) := [.register 0 1 .strong, .register 0 2 .strong]
    let r : Recorder Float := Solver.giveAll {} inputs
    let s : Minimizer Float := Solver.giveAll {} inputs
    Solver.value? r 0 = some 2 ∧ Solver.value? s 0 = some 1 ∧ ¬ SameValue (Solver.value? r 0) (Solver.value? s 0) ∧
      (r.register 0 2 .required).1 = .error (.requiredAdjustable 0) ∧
      (s.register 0 2 .required).1 = .error (.duplicateAdjustable 0) := by
  intro inputs r s
  have recorded : Solver.value? r 0 = some 2 := by decide +kernel
  have solved : Solver.value? s 0 = some 1 := by decide +kernel
  refine ⟨recorded, solved, ?_, rfl, rfl⟩
  rw [recorded, solved]
  have different : ¬ ((2 : Float) == 1) = true := by decide +kernel
  exact different

end ReactiveLayout
