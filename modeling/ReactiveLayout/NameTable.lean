/-! Tables by name. The entries stand in the order of their names, compared character by character, and no name
occurs twice; so two tables with the same entries are equal, and nothing depends on the order of insertion. -/
namespace ReactiveLayout

/-- Entries in strictly increasing order of their names. -/
structure NameTable (α : Type) where
  entries : List (String × α)
  ordered : (entries.map (·.1)).Pairwise (· < ·)

namespace NameTable
variable {α β : Type}

def empty : NameTable α := ⟨[], List.Pairwise.nil⟩

instance : Inhabited (NameTable α) := ⟨empty⟩
instance : EmptyCollection (NameTable α) := ⟨empty⟩

instance [BEq α] : BEq (NameTable α) := ⟨fun a b => a.entries == b.entries⟩

def names (t : NameTable α) : List String := t.entries.map (·.1)

def size (t : NameTable α) : Nat := t.entries.length

def get? (t : NameTable α) (name : String) : Option α := t.entries.lookup name

def contains (t : NameTable α) (name : String) : Bool := (t.get? name).isSome

/-- Places an entry among ordered ones, replacing the one of its name. -/
def place (name : String) (value : α) : List (String × α) → List (String × α)
  | [] => [(name, value)]
  | entry :: rest =>
    if name < entry.1 then (name, value) :: entry :: rest
    else if name = entry.1 then (name, value) :: rest
    else entry :: place name value rest

theorem mem_names_place {name : String} {value : α} {entries : List (String × α)} {n : String}
    (h : n ∈ (place name value entries).map (·.1)) : n = name ∨ n ∈ entries.map (·.1) := by
  induction entries with
  | nil => simpa [place] using h
  | cons entry rest ih =>
    simp only [place] at h
    split at h
    · simpa using h
    · split at h
      · simp only [List.map_cons, List.mem_cons] at h ⊢
        exact h.elim .inl (fun h => .inr (.inr h))
      · simp only [List.map_cons, List.mem_cons] at h ⊢
        exact h.elim (fun h => .inr (.inl h)) (fun h => (ih h).elim .inl (fun h => .inr (.inr h)))

theorem place_ordered (name : String) (value : α) {entries : List (String × α)}
    (ordered : (entries.map (·.1)).Pairwise (· < ·)) :
    ((place name value entries).map (·.1)).Pairwise (· < ·) := by
  induction entries with
  | nil => simp [place]
  | cons entry rest ih =>
    simp only [List.map_cons, List.pairwise_cons] at ordered
    obtain ⟨first, later⟩ := ordered
    simp only [place]
    split
    · rename_i below
      simp only [List.map_cons, List.pairwise_cons, List.mem_cons]
      refine ⟨fun n h => ?_, first, later⟩
      rcases h with rfl | h
      · exact below
      · exact String.lt_trans below (first n h)
    · rename_i notBelow
      split
      · rename_i same
        simp only [List.map_cons, List.pairwise_cons]
        exact ⟨fun n h => same ▸ first n h, later⟩
      · rename_i different
        simp only [List.map_cons, List.pairwise_cons]
        refine ⟨fun n h => ?_, ih later⟩
        rcases mem_names_place h with rfl | h
        · exact Classical.byContradiction fun notAbove =>
            different (String.le_antisymm (String.not_lt.mp notAbove) (String.not_lt.mp notBelow))
        · exact first n h

/-- Binds a name, replacing what it was bound to. -/
def insert (t : NameTable α) (name : String) (value : α) : NameTable α :=
  ⟨place name value t.entries, place_ordered name value t.ordered⟩

/-- Binds the names of a list in turn, so the last of two equal names counts. -/
def insertAll (t : NameTable α) (entries : List (String × α)) : NameTable α :=
  entries.foldl (fun t e => t.insert e.1 e.2) t

def ofList (entries : List (String × α)) : NameTable α := empty.insertAll entries

/-- Forgets a name. -/
def erase (t : NameTable α) (name : String) : NameTable α :=
  ⟨t.entries.filter fun e => e.1 != name,
    t.ordered.sublist (List.Sublist.map _ List.filter_sublist)⟩

def map (f : α → β) (t : NameTable α) : NameTable β :=
  ⟨t.entries.map fun e => (e.1, f e.2), by simpa [List.map_map, Function.comp_def] using t.ordered⟩

/-- All entries of two tables; where both bind a name, the second counts. -/
def union (a b : NameTable α) : NameTable α := a.insertAll b.entries

end NameTable
end ReactiveLayout
