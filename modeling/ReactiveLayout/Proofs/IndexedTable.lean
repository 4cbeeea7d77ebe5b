import ReactiveLayout.Proofs.QuantityTable

/-! The histories of a table of quantities. Its names stay distinct, so a number is as good as a name and every reader
tells the same of both; a step that is refused changes nothing, and one that is not changes one quantity. The table can
be kept with an index of its names beside the entries. Nobody has to search then, and both parts stay in step. -/
namespace ReactiveLayout
variable {K : Type}

namespace QuantityTable

/-- What is done to a table. -/
inductive Step (K : Type) where
  | insert (name : String) (value : K)
  | set (id : QuantityId) (value : K)

/-- The number that a step writes at, if it is not refused. -/
def target? (t : QuantityTable K) : Step K → Option QuantityId
  | .insert name value => (t.insert? name value).map (·.1)
  | .set id _ => if t.contains id then some id else none

def step (t : QuantityTable K) : Step K → QuantityTable K
  | .insert name value =>
    match t.insert? name value with
    | some (_, after) => after
    | none => t
  | .set id value => t.set id value

def run (t : QuantityTable K) (steps : List (Step K)) : QuantityTable K := steps.foldl step t

variable {t : QuantityTable K}

theorem get?_set (t : QuantityTable K) (id : QuantityId) (value : K) (other : QuantityId) :
    (t.set id value).get? other = (t.get? other).map fun q => if other = id then { q with value } else q := by
  rw [get?, set, List.getElem?_modify, get?, Option.map_eq_map]
  by_cases here : id = other
  · simp only [here, if_true]
  · simp only [here, Ne.symm here, if_false]

theorem names_set (t : QuantityTable K) (id : QuantityId) (value : K) : (t.set id value).names = t.names := by
  refine List.ext_getElem? fun other => ?_
  have entry := get?_set t id value other
  unfold get? at entry
  rw [names, names, List.getElem?_map, List.getElem?_map, entry, Option.map_map]
  congr 1
  funext q
  rw [Function.comp_apply]
  split <;> rfl

theorem set_of_unknown {id : QuantityId} (unknown : ¬ t.contains id = true) (value : K) : t.set id value = t := by
  have outside : t.entries.length ≤ id := Nat.le_of_not_lt (mt contains_iff.mpr unknown)
  rw [set, List.modify_eq_self outside]

/-- What a step writes and what it leaves. -/
inductive Writes (t : QuantityTable K) : Step K → Option QuantityId → QuantityTable K → Prop where
  | taken {name : String} {value : K} (known : name ∈ t.names) : Writes t (.insert name value) none t
  | next {name : String} {value : K} {after : QuantityTable K} (fresh : name ∉ t.names)
      (size : after.size = t.size + 1) (here : after.get? t.size = some ⟨name, value⟩)
      (others : ∀ id, id < t.size → after.get? id = t.get? id) :
      Writes t (.insert name value) (some t.size) after
  | unknown {id : QuantityId} {value : K} (beyond : t.size ≤ id) : Writes t (.set id value) none t
  | overwrite {id : QuantityId} {q : Quantity K} {value : K} {after : QuantityTable K} (found : t.get? id = some q)
      (size : after.size = t.size) (here : after.get? id = some ⟨q.name, value⟩)
      (others : ∀ other, other ≠ id → after.get? other = t.get? other) :
      Writes t (.set id value) (some id) after

theorem writes_step (t : QuantityTable K) (step : Step K) : Writes t step (t.target? step) (t.step step) := by
  cases step with
  | insert name value =>
    cases inserted : t.insert? name value with
    | none =>
      have known : name ∈ t.names := by
        by_contra absent
        have accepted : t.insert? name value = some (t.size, ⟨t.entries ++ [⟨name, value⟩]⟩) :=
          insert?_eq_some_iff.mpr ⟨id?_eq_none_iff.mpr absent, rfl, rfl⟩
        rw [inserted] at accepted
        cases accepted
      simp only [target?, QuantityTable.step, inserted, Option.map_none]
      exact .taken known
    | some reply =>
      obtain ⟨id, after⟩ := reply
      obtain ⟨fresh, rfl, rfl⟩ := insert?_eq_some_iff.mp inserted
      simp only [target?, QuantityTable.step, inserted, Option.map_some]
      refine .next (id?_eq_none_iff.mp fresh) (by simp [size]) ?_ fun id below => ?_
      · rw [get?_concat, if_pos rfl]
      · rw [get?_concat, if_neg (Nat.ne_of_lt below)]
  | set id value =>
    by_cases known : t.contains id = true
    · obtain ⟨q, found⟩ : ∃ q, t.get? id = some q := ⟨_, List.getElem?_eq_getElem (contains_iff.mp known)⟩
      simp only [target?, QuantityTable.step, known, if_true]
      refine .overwrite found ?_ ?_ fun other different => ?_
      · rw [← length_names, names_set, length_names]
      · rw [get?_set, found, Option.map_some, if_pos rfl]
      · rw [get?_set]
        simp only [different, if_false, Option.map_id']
    · simp only [target?, QuantityTable.step, known, Bool.false_eq_true, if_false, set_of_unknown known]
      exact .unknown (Nat.le_of_not_lt (mt contains_iff.mpr known))

/-- A step leaves the names that there are in their places. -/
theorem names_step (t : QuantityTable K) (step : Step K) :
    (t.step step).names = t.names ∨ ∃ name ∉ t.names, (t.step step).names = t.names ++ [name] := by
  cases step with
  | set id value => exact .inl (names_set t id value)
  | insert name value =>
    simp only [QuantityTable.step]
    split
    · rename_i inserted
      obtain ⟨fresh, _, rfl⟩ := insert?_eq_some_iff.mp inserted
      exact .inr ⟨name, id?_eq_none_iff.mp fresh, by simp [names]⟩
    · exact .inl rfl

theorem nodup_step (unique : t.names.Nodup) (step : Step K) : (t.step step).names.Nodup := by
  rcases names_step t step with same | ⟨name, fresh, longer⟩
  · exact same ▸ unique
  · rw [longer]
    exact List.nodup_append.mpr ⟨unique, List.nodup_singleton name, fun other member _ last same =>
      fresh (List.mem_singleton.mp last ▸ same ▸ member)⟩

theorem nodup_run (unique : t.names.Nodup) (steps : List (Step K)) : (t.run steps).names.Nodup :=
  List.foldlRecOn (motive := fun t : QuantityTable K => t.names.Nodup) steps _ unique fun _ unique step _ =>
    nodup_step unique step

theorem names_prefix_run (t : QuantityTable K) (steps : List (Step K)) : t.names <+: (t.run steps).names := by
  induction steps generalizing t with
  | nil => exact List.prefix_rfl
  | cons step rest ih =>
    refine List.IsPrefix.trans ?_ (ih (t.step step))
    rcases names_step t step with same | ⟨name, _, longer⟩
    · exact same ▸ List.prefix_rfl
    · exact longer ▸ List.prefix_append t.names [name]

/-- Names and numbers tell the same, whichever reader is asked. -/
structure Consistent (t : QuantityTable K) : Prop where
  distinct : t.names.Nodup
  numbered : ∀ name id, t.id? name = some id ↔ t.name? id = some name
  dense : ∀ id, (∃ name, t.id? name = some id) ↔ id < t.size
  known : ∀ name id, t.id? name = some id → ∃ value,
    t.valueOf? name = some value ∧ t.value? id = some value ∧ t.snapshot.get? name = some value
  unknown : ∀ name, t.id? name = none → t.valueOf? name = none ∧ t.snapshot.get? name = none
  shown : t.snapshot.size = t.size

theorem id?_eq_some_iff_name? (unique : t.names.Nodup) {name : String} {id : QuantityId} :
    t.id? name = some id ↔ t.name? id = some name := by
  rw [id?_eq_some_iff unique, name?, get?, Option.map_eq_some_iff]

/-- The names of a snapshot are those of the table, each once. -/
theorem size_snapshot (unique : t.names.Nodup) : t.snapshot.size = t.size := by
  have same (name : String) : name ∈ t.snapshot.names ↔ name ∈ t.names := by
    rw [NameTable.mem_names_iff, snapshot_get? unique]
    constructor
    · rintro ⟨value, found⟩
      by_contra absent
      rw [valueOf?_of_notMem absent] at found
      cases found
    · intro member
      obtain ⟨q, among, rfl⟩ := List.mem_map.mp member
      obtain ⟨id, found⟩ := List.getElem?_of_mem among
      exact ⟨q.value, valueOf?_of_getElem? unique found⟩
  have perm := (List.perm_ext_iff_of_nodup t.snapshot.names_nodup unique).mpr same
  have length := perm.length_eq
  rwa [length_names, NameTable.names, List.length_map] at length

theorem consistent_of_nodup (unique : t.names.Nodup) : t.Consistent where
  distinct := unique
  numbered _ _ := id?_eq_some_iff_name? unique
  dense id := by
    simp only [id?_eq_some_iff unique]
    constructor
    · rintro ⟨name, q, found, _⟩
      exact (List.getElem?_eq_some_iff.mp found).1
    · intro below
      exact ⟨_, _, List.getElem?_eq_getElem below, rfl⟩
  known name id number := by
    obtain ⟨q, found, rfl⟩ := (id?_eq_some_iff unique).mp number
    have value := valueOf?_of_getElem? unique found
    exact ⟨q.value, value, by rw [value?, get?, found, Option.map_some], (snapshot_get? unique q.name).trans value⟩
  unknown name missing := by
    have value := valueOf?_of_notMem (id?_eq_none_iff.mp missing)
    exact ⟨value, (snapshot_get? unique name).trans value⟩
  shown := size_snapshot unique

/-- A number that a name had once it has for ever. -/
theorem id?_run (unique : t.names.Nodup) (steps : List (Step K)) {name : String} {id : QuantityId}
    (number : t.id? name = some id) : (t.run steps).id? name = some id := by
  have entry (t : QuantityTable K) : t.name? id = t.names[id]? := (List.getElem?_map ..).symm
  rw [id?_eq_some_iff_name? unique, entry] at number
  obtain ⟨later, longer⟩ := names_prefix_run t steps
  obtain ⟨below, _⟩ := List.getElem?_eq_some_iff.mp number
  rw [id?_eq_some_iff_name? (nodup_run unique steps), entry, ← longer, List.getElem?_append_left below, number]

end QuantityTable

/-- A table of quantities with an index of their names. -/
structure IndexedTable (K : Type) where
  entries : List (Quantity K) := []
  index : NameTable QuantityId := ∅

namespace IndexedTable
open QuantityTable (Step)

def id? (s : IndexedTable K) (name : String) : Option QuantityId := s.index.get? name

def value? (s : IndexedTable K) (id : QuantityId) : Option K := s.entries[id]?.map (·.value)

def valueOf? (s : IndexedTable K) (name : String) : Option K := (s.id? name).bind s.value?

def snapshot (s : IndexedTable K) : NameTable K := .ofList (s.entries.map fun q => (q.name, q.value))

/-- The number that is written at, and the table after it. A new name is entered under the next number. -/
def step (s : IndexedTable K) : Step K → Option QuantityId × IndexedTable K
  | .insert name value =>
    if s.index.contains name then (none, s)
    else
      let id := s.entries.length
      (some id, { index := s.index.insert name id, entries := s.entries ++ [⟨name, value⟩] })
  | .set id value =>
    match s.entries[id]? with
    | some q => (some id, { s with entries := s.entries.set id { q with value } })
    | none => (none, s)

def run (s : IndexedTable K) (steps : List (Step K)) : IndexedTable K := steps.foldl (fun s step => (s.step step).2) s

/-- Every reader of the indexed table answers as that of the other. -/
structure Reads (s : IndexedTable K) (t : QuantityTable K) : Prop where
  entries : s.entries = t.entries
  ids : ∀ name, s.id? name = t.id? name
  values : ∀ id, s.value? id = t.value? id
  valuesOf : ∀ name, s.valueOf? name = t.valueOf? name
  snapshot : s.snapshot = t.snapshot

variable {s : IndexedTable K} {t : QuantityTable K}

theorem reads_of_index (entries : s.entries = t.entries) (ids : ∀ name, s.id? name = t.id? name) : s.Reads t := by
  have values (id : QuantityId) : s.value? id = t.value? id := by
    rw [value?, entries, QuantityTable.value?, QuantityTable.get?]
  refine ⟨entries, ids, values, fun name => ?_, ?_⟩
  · rw [valueOf?, ids, QuantityTable.valueOf?, funext values]
  · rw [IndexedTable.snapshot, entries, QuantityTable.snapshot]

/-- The index is looked up where the entries would be searched, and a name that is missing from one is missing from the
other. -/
theorem Reads.step (reads : s.Reads t) (step : Step K) :
    (s.step step).1 = t.target? step ∧ (s.step step).2.Reads (t.step step) := by
  cases step with
  | insert name value =>
    have known : s.index.contains name = (t.id? name).isSome := congrArg Option.isSome (reads.ids name)
    simp only [IndexedTable.step, QuantityTable.step, QuantityTable.target?, QuantityTable.insert?, known]
    cases number : t.id? name with
    | some id => exact ⟨rfl, reads⟩
    | none =>
      refine ⟨congrArg (fun entries => some (List.length entries)) reads.entries, reads_of_index ?_ fun other => ?_⟩
      · exact congrArg (· ++ [⟨name, value⟩]) reads.entries
      · change (s.index.insert name s.entries.length).get? other = _
        rw [NameTable.get?_insert]
        by_cases here : other = name
        · rw [if_pos here, here, QuantityTable.id?_append_self value number, reads.entries, QuantityTable.size]
        · rw [if_neg here, QuantityTable.id?_append_ne t value here]
          exact reads.ids other
  | set id value =>
    have target : t.target? (.set id value) = if id < t.entries.length then some id else none := by
      by_cases below : id < t.entries.length <;>
        simp [QuantityTable.target?, QuantityTable.contains, QuantityTable.size, below]
    simp only [IndexedTable.step, QuantityTable.step, reads.entries, target]
    cases found : t.entries[id]? with
    | some q =>
      obtain ⟨below, here⟩ := List.getElem?_eq_some_iff.mp found
      refine ⟨(if_pos below).symm, reads_of_index ?_ fun name => ?_⟩
      · rw [QuantityTable.set, List.modify_eq_set_getElem?, found]
        rfl
      · rw [QuantityTable.id?_eq_idxOf?, QuantityTable.names_set, ← QuantityTable.id?_eq_idxOf?]
        exact reads.ids name
    | none =>
      have beyond := List.getElem?_eq_none_iff.mp found
      have unchanged : t.set id value = t := QuantityTable.set_of_unknown
        (mt QuantityTable.contains_iff.mp (Nat.not_lt.mpr beyond)) value
      exact ⟨(if_neg (Nat.not_lt.mpr beyond)).symm, unchanged.symm ▸ reads⟩

theorem Reads.run (reads : s.Reads t) (steps : List (Step K)) : (s.run steps).Reads (t.run steps) := by
  induction steps generalizing s t with
  | nil => exact reads
  | cons step rest ih => exact ih (reads.step step).2

end IndexedTable

namespace QuantityTable

/-- Whatever was inserted and set, names and numbers tell the same, and a number names one quantity for ever. An
insertion of a new name is given the next number, one of a taken name is refused, and so is a value for an unknown
number; what is refused changes nothing. The index that is kept beside the entries answers as a search of them, and
decides likewise. -/
theorem table_consistent (steps : List (Step K)) :
    let t := (empty : QuantityTable K).run steps
    let s := ({} : IndexedTable K).run steps
    t.Consistent ∧ s.Reads t ∧
      (∀ step, t.Writes step (t.target? step) (t.step step) ∧ (s.step step).1 = t.target? step) ∧
      ∀ name id, t.id? name = some id → ∀ later, (t.run later).id? name = some id := by
  intro t s
  have unique : t.names.Nodup := nodup_run (t := empty) List.nodup_nil steps
  have reads : s.Reads t := (IndexedTable.reads_of_index rfl fun _ => rfl).run steps
  exact ⟨consistent_of_nodup unique, reads, fun step => ⟨writes_step t step, (reads.step step).1⟩,
    fun name id number later => id?_run unique later number⟩

end QuantityTable

end ReactiveLayout
