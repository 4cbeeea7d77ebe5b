import Mathlib.Data.List.Nodup
import ReactiveLayout.Proofs.NameTable
import ReactiveLayout.QuantityTable

/-! The numbers of quantities. A number is the position of its name, so it survives every later insertion. -/
namespace ReactiveLayout.QuantityTable
variable {K : Type}

theorem insert?_eq_some_iff {t t' : QuantityTable K} {name : String} {value : K} {id : QuantityId} :
    t.insert? name value = some (id, t') ↔ t.id? name = none ∧ id = t.size ∧ t' = ⟨t.entries ++ [⟨name, value⟩]⟩ := by
  unfold insert?
  cases t.id? name with
  | some taken => simp
  | none => simp [Prod.ext_iff, eq_comm]

theorem length_names (t : QuantityTable K) : t.names.length = t.size := List.length_map _

theorem id?_eq_none_iff {t : QuantityTable K} {name : String} : t.id? name = none ↔ name ∉ t.names := by
  simp [id?, names, List.findIdx?_eq_none_iff]

theorem id?_eq_idxOf? (t : QuantityTable K) (name : String) : t.id? name = t.names.idxOf? name := by
  unfold id? names List.idxOf?
  rw [List.findIdx?_map]
  rfl

theorem id?_append_ne (t : QuantityTable K) {name other : String} (value : K) (different : other ≠ name) :
    (⟨t.entries ++ [⟨name, value⟩]⟩ : QuantityTable K).id? other = t.id? other := by
  unfold id?
  rw [List.findIdx?_append]
  simp [Ne.symm different]

theorem id?_append_self {t : QuantityTable K} {name : String} (value : K) (fresh : t.id? name = none) :
    (⟨t.entries ++ [⟨name, value⟩]⟩ : QuantityTable K).id? name = some t.size := by
  unfold id? at fresh ⊢
  rw [List.findIdx?_append, fresh]
  simp [size]

theorem get?_concat (t : QuantityTable K) (q : Quantity K) (id : QuantityId) :
    (⟨t.entries ++ [q]⟩ : QuantityTable K).get? id = if id = t.size then some q else t.get? id := by
  unfold get? size
  rcases Nat.lt_trichotomy id t.entries.length with below | rfl | beyond
  · rw [List.getElem?_append_left below, if_neg (Nat.ne_of_lt below)]
  · rw [List.getElem?_concat_length, if_pos rfl]
  · have outside : (t.entries ++ [q]).length ≤ id := by
      rw [List.length_append]
      exact beyond
    rw [List.getElem?_eq_none outside, List.getElem?_eq_none (Nat.le_of_lt beyond), if_neg (Nat.ne_of_gt beyond)]

theorem contains_iff {t : QuantityTable K} {id : QuantityId} : t.contains id = true ↔ id < t.size := by
  simp [contains]

/-- With every name once, the number of a name is the position of its quantity. -/
theorem id?_eq_some_iff {t : QuantityTable K} (unique : t.names.Nodup) {name : String} {id : QuantityId} :
    t.id? name = some id ↔ ∃ q, t.entries[id]? = some q ∧ q.name = name := by
  have position : t.names.idxOf? name = some id ↔ t.names[id]? = some name := by
    rw [List.idxOf?_eq_some_iff, List.getElem?_eq_some_iff]
    constructor
    · rintro ⟨below, here, _⟩
      exact ⟨below, here⟩
    · rintro ⟨below, here⟩
      refine ⟨below, here, fun j earlier same => ?_⟩
      exact Nat.ne_of_lt earlier ((unique.getElem_inj_iff).mp (same.trans here.symm))
  rw [id?_eq_idxOf?, position, names, List.getElem?_map, Option.map_eq_some_iff]

theorem valueOf?_of_getElem? {t : QuantityTable K} (unique : t.names.Nodup) {q : Quantity K} {id : QuantityId}
    (found : t.entries[id]? = some q) : t.valueOf? q.name = some q.value := by
  have numbered : t.id? q.name = some id := (id?_eq_some_iff unique).mpr ⟨q, found, rfl⟩
  simp [valueOf?, numbered, value?, get?, found]

theorem valueOf?_of_notMem {t : QuantityTable K} {name : String} (absent : name ∉ t.names) : t.valueOf? name = none := by
  rw [valueOf?, id?_eq_none_iff.mpr absent, Option.bind_none]

/-- With every name once, a snapshot shows the value that a search for the name finds. -/
theorem snapshot_get? {t : QuantityTable K} (unique : t.names.Nodup) (name : String) :
    t.snapshot.get? name = t.valueOf? name := by
  have names : (t.entries.map fun q => (q.name, q.value)).map (·.1) = t.names := by
    rw [List.map_map]
    rfl
  have shown : t.snapshot.get? name = (t.entries.map fun q => (q.name, q.value)).lookup name :=
    (NameTable.get?_insertAll _ _ (names ▸ unique) name).trans (Option.or_none)
  rw [shown]
  by_cases member : name ∈ t.names
  · obtain ⟨q, among, rfl⟩ := List.mem_map.mp member
    obtain ⟨id, found⟩ := List.getElem?_of_mem among
    have entry : (q.name, q.value) ∈ t.entries.map fun q => (q.name, q.value) := List.mem_map_of_mem among
    rw [NameTable.lookup_of_mem (names ▸ unique) entry, valueOf?_of_getElem? unique found]
  · have absent : ¬ ((t.entries.map fun q => (q.name, q.value)).lookup name).isSome = true := by
      rw [NameTable.lookup_isSome_iff, names]
      exact member
    rw [valueOf?_of_notMem member, Option.not_isSome_iff_eq_none.mp absent]

/-- The first name has a smaller number than the second. -/
def Precedes (t : QuantityTable K) (first second : String) : Prop :=
  ∃ i j, t.id? first = some i ∧ t.id? second = some j ∧ i < j

/-- The names of a table stand in the order of their numbers. -/
theorem names_pairwise_precedes {t : QuantityTable K} (unique : t.names.Nodup) : t.names.Pairwise t.Precedes := by
  have number (i : Nat) (below : i < t.names.length) : t.id? t.names[i] = some i := by
    have entry : i < t.entries.length := by simpa [names] using below
    refine (id?_eq_some_iff unique).mpr ⟨t.entries[i], List.getElem?_eq_getElem entry, ?_⟩
    simp only [names, List.getElem_map]
  exact List.pairwise_iff_getElem.mpr fun i j first second below => ⟨i, j, number i first, number j second, below⟩

end ReactiveLayout.QuantityTable
