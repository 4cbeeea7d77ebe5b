import Mathlib.Data.List.Basic
import ReactiveLayout.NameTable

/-! Looking names up in a table, one law for each operation. A table is determined by what its names are bound to, so
the theorems on layouts speak of lookups and never of positions among the entries. -/
namespace ReactiveLayout.NameTable
variable {α β : Type}

theorem lookup_cons (entry : String × α) (rest : List (String × α)) (n : String) :
    (entry :: rest).lookup n = if n = entry.1 then some entry.2 else rest.lookup n := by
  obtain ⟨name, value⟩ := entry
  by_cases same : n = name
  · simp [same]
  · rw [List.lookup_cons, beq_eq_false_iff_ne.mpr same, if_neg same]

theorem lookup_place (name : String) (value : α) (entries : List (String × α)) (n : String) :
    (place name value entries).lookup n = if n = name then some value else entries.lookup n := by
  induction entries with
  | nil => simp [place, lookup_cons]
  | cons entry rest ih =>
    simp only [place]
    split
    · simp only [lookup_cons]
    · split
      · rename_i replaced
        simp only [lookup_cons, replaced]
        split <;> rfl
      · rename_i different
        simp only [lookup_cons, ih]
        by_cases first : n = entry.1
        · have other : n ≠ name := fun same => different (same.symm.trans first)
          rw [if_pos first, if_neg other, if_pos first]
        · rw [if_neg first, if_neg first]

theorem get?_insert (t : NameTable α) (name : String) (value : α) (n : String) :
    (t.insert name value).get? n = if n = name then some value else t.get? n :=
  lookup_place name value t.entries n

@[simp] theorem get?_insert_self (t : NameTable α) (name : String) (value : α) :
    (t.insert name value).get? name = some value := by
  rw [get?_insert, if_pos rfl]

theorem get?_insert_ne (t : NameTable α) {name n : String} (value : α) (other : n ≠ name) :
    (t.insert name value).get? n = t.get? n := by
  rw [get?_insert, if_neg other]

theorem get?_erase_ne (t : NameTable α) {name n : String} (other : n ≠ name) :
    (t.erase name).get? n = t.get? n := by
  have kept (entries : List (String × α)) :
      (entries.filter fun e => e.1 != name).lookup n = entries.lookup n := by
    induction entries with
    | nil => rfl
    | cons entry rest ih =>
      by_cases named : entry.1 = name
      · have skipped : n ≠ entry.1 := fun same => other (same.trans named)
        simp [named, lookup_cons, other, ih]
      · simp [named, lookup_cons, ih]
  exact kept t.entries

theorem get?_foldl_erase (t : NameTable α) {names : List String} {n : String} (kept : n ∉ names) :
    (names.foldl erase t).get? n = t.get? n := by
  induction names generalizing t with
  | nil => rfl
  | cons name rest ih =>
    obtain ⟨other, kept⟩ := List.ne_and_not_mem_of_not_mem_cons kept
    rw [List.foldl_cons, ih _ kept, t.get?_erase_ne other]

theorem nodup_of_ordered {names : List String} (ordered : names.Pairwise (· < ·)) : names.Nodup := by
  refine ordered.imp ?_
  rintro a b below rfl
  exact String.lt_irrefl a below

theorem names_nodup (t : NameTable α) : t.names.Nodup := nodup_of_ordered t.ordered

theorem lookup_isSome_iff (entries : List (String × α)) (name : String) :
    (entries.lookup name).isSome = true ↔ name ∈ entries.map (·.1) := by
  induction entries with
  | nil => simp
  | cons entry rest ih =>
    rw [lookup_cons, List.map_cons, List.mem_cons]
    by_cases first : name = entry.1
    · simp [first]
    · simp only [first, if_false, false_or, ih]

theorem mem_names_iff (t : NameTable α) (name : String) : name ∈ t.names ↔ ∃ value, t.get? name = some value := by
  rw [← Option.isSome_iff_exists]
  exact (lookup_isSome_iff t.entries name).symm

theorem get?_eq_none_iff (t : NameTable α) (name : String) : t.get? name = none ↔ name ∉ t.names := by
  rw [mem_names_iff, ← Option.isSome_iff_exists, Bool.not_eq_true, Option.isSome_eq_false_iff, Option.isNone_iff_eq_none]

theorem contains_iff (t : NameTable α) (name : String) : t.contains name = true ↔ name ∈ t.names := by
  rw [mem_names_iff, ← Option.isSome_iff_exists, contains]

theorem mem_names_of_get? {t : NameTable α} {name : String} {value : α} (bound : t.get? name = some value) :
    name ∈ t.names :=
  (t.mem_names_iff name).mpr ⟨value, bound⟩

theorem mem_names_insert (t : NameTable α) (name : String) (value : α) (n : String) :
    n ∈ (t.insert name value).names ↔ n = name ∨ n ∈ t.names := by
  rw [mem_names_iff, mem_names_iff, get?_insert]
  by_cases same : n = name
  · simp [same]
  · simp [same]

/-- With every name at most once, the entry of a name is what its lookup finds. -/
theorem lookup_of_mem {entries : List (String × α)} (unique : (entries.map (·.1)).Nodup) {entry : String × α}
    (member : entry ∈ entries) : entries.lookup entry.1 = some entry.2 := by
  induction entries with
  | nil => cases member
  | cons first rest ih =>
    simp only [List.map_cons, List.nodup_cons] at unique
    rcases List.mem_cons.mp member with rfl | later
    · rw [lookup_cons, if_pos rfl]
    · have other : entry.1 ≠ first.1 := fun same => unique.1 (same ▸ List.mem_map_of_mem later)
      rw [lookup_cons, if_neg other, ih unique.2 later]

theorem get?_of_mem {t : NameTable α} {entry : String × α} (member : entry ∈ t.entries) :
    t.get? entry.1 = some entry.2 :=
  lookup_of_mem t.names_nodup member

theorem mem_of_get? {t : NameTable α} {name : String} {value : α} (bound : t.get? name = some value) :
    (name, value) ∈ t.entries := by
  obtain ⟨front, back, split, _⟩ := List.lookup_eq_some_iff.mp bound
  rw [split]
  exact List.mem_append_right _ List.mem_cons_self

theorem get?_insertAll (t : NameTable α) (entries : List (String × α)) (unique : (entries.map (·.1)).Nodup)
    (n : String) : (t.insertAll entries).get? n = (entries.lookup n).or (t.get? n) := by
  induction entries generalizing t with
  | nil => rfl
  | cons entry rest ih =>
    simp only [List.map_cons, List.nodup_cons] at unique
    have step : (t.insertAll (entry :: rest)).get? n = (rest.lookup n).or ((t.insert entry.1 entry.2).get? n) :=
      ih (t.insert entry.1 entry.2) unique.2
    by_cases first : n = entry.1
    · have absent : rest.lookup n = none := by
        rw [← Option.not_isSome_iff_eq_none, lookup_isSome_iff, first]
        exact unique.1
      rw [step, lookup_cons, if_pos first, absent, first, get?_insert_self, Option.none_or, Option.some_or]
    · rw [step, lookup_cons, if_neg first, get?_insert_ne _ _ first]

/-- Where both tables bind a name, the second counts. -/
theorem get?_union (a b : NameTable α) (n : String) : (a.union b).get? n = (b.get? n).or (a.get? n) :=
  get?_insertAll a b.entries b.names_nodup n

theorem mem_names_union (a b : NameTable α) (n : String) : n ∈ (a.union b).names ↔ n ∈ a.names ∨ n ∈ b.names := by
  rw [mem_names_iff, mem_names_iff, mem_names_iff, get?_union]
  cases b.get? n with
  | none => simp
  | some value => simp

/-- Names that stand in order and are the same stand alike. -/
theorem eq_of_ordered {names others : List String} (first : names.Pairwise (· < ·))
    (second : others.Pairwise (· < ·)) (same : ∀ name, name ∈ names ↔ name ∈ others) : names = others := by
  have perm : names.Perm others :=
    (List.perm_ext_iff_of_nodup (nodup_of_ordered first) (nodup_of_ordered second)).mpr same
  exact perm.eq_of_pairwise (fun a b _ _ below above => absurd (String.lt_trans below above) (String.lt_irrefl a))
    first second

/-- Tables are equal if they find the same under every name. -/
theorem eq_of_get? {a b : NameTable α} (same : ∀ n, a.get? n = b.get? n) : a = b := by
  have names : a.names = b.names :=
    eq_of_ordered a.ordered b.ordered fun n =>
      (mem_names_iff a n).trans ((same n) ▸ (mem_names_iff b n).symm)
  have listed (t : NameTable α) : t.names.filterMap (fun n => (t.get? n).map fun value => (n, value)) = t.entries := by
    rw [NameTable.names, List.filterMap_map]
    refine (List.filterMap_congr fun entry member => ?_).trans List.filterMap_some
    rw [Function.comp_apply, get?_of_mem member, Option.map_some]
  have entries : a.entries = b.entries := by
    rw [← listed a, ← listed b, names]
    exact List.filterMap_congr fun n _ => by rw [same]
  obtain ⟨entriesA, _⟩ := a
  obtain rfl : entriesA = b.entries := entries
  rfl

theorem names_map (g : α → β) (t : NameTable α) : (t.map g).names = t.names := by
  simp [names, map, List.map_map, Function.comp_def]

theorem get?_map (g : α → β) (t : NameTable α) (name : String) : (t.map g).get? name = (t.get? name).map g := by
  have mapped (entries : List (String × α)) :
      (entries.map fun e => (e.1, g e.2)).lookup name = (entries.lookup name).map g := by
    induction entries with
    | nil => rfl
    | cons entry rest ih =>
      rw [List.map_cons, lookup_cons, lookup_cons, ih]
      split <;> rfl
  exact mapped t.entries

end ReactiveLayout.NameTable
