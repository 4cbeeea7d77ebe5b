import ReactiveLayout.Affine
import ReactiveLayout.NameTable

/-! The quantities of one layout. They are numbered in the order in which they were added and never removed, so a
number, once given, names the same quantity for good. -/
namespace ReactiveLayout

structure Quantity (K : Type) where
  name : String
  value : K

/-- The quantities in the order of their numbers. -/
structure QuantityTable (K : Type) where
  entries : List (Quantity K)

namespace QuantityTable
variable {K : Type}

def empty : QuantityTable K := ⟨[]⟩

def size (t : QuantityTable K) : Nat := t.entries.length

def names (t : QuantityTable K) : List String := t.entries.map (·.name)

def id? (t : QuantityTable K) (name : String) : Option QuantityId := t.entries.findIdx? (·.name == name)

def get? (t : QuantityTable K) (id : QuantityId) : Option (Quantity K) := t.entries[id]?

def value? (t : QuantityTable K) (id : QuantityId) : Option K := (t.get? id).map (·.value)

def name? (t : QuantityTable K) (id : QuantityId) : Option String := (t.get? id).map (·.name)

def valueOf? (t : QuantityTable K) (name : String) : Option K := (t.id? name).bind t.value?

def contains (t : QuantityTable K) (id : QuantityId) : Bool := decide (id < t.size)

/-- Adds a quantity under the next number, unless its name is taken. -/
def insert? (t : QuantityTable K) (name : String) (value : K) : Option (QuantityId × QuantityTable K) :=
  match t.id? name with
  | some _ => none
  | none => some (t.size, ⟨t.entries ++ [⟨name, value⟩]⟩)

/-- Overwrites one value, or none if the number is unknown. -/
def set (t : QuantityTable K) (id : QuantityId) (value : K) : QuantityTable K :=
  ⟨t.entries.modify id fun q => { q with value }⟩

def snapshot (t : QuantityTable K) : NameTable K := .ofList (t.entries.map fun q => (q.name, q.value))

end QuantityTable
end ReactiveLayout
