import ReactiveLayout.Document.Node

/-! Tables of TOML while a document is read. What may be added to a table hangs on how it came about: a header opens
a table once, also one that longer headers have implied before; a dotted key goes through tables that dotted keys
or longer headers have made, but may add only to those that dotted keys have made. -/
namespace ReactiveLayout.Document.Toml

inductive Origin where
  /-- It is on the way to the table of a header. -/
  | implied
  /-- A header opened it. The whole document counts as opened by one. -/
  | header
  /-- It is on the way to the value of a dotted key. -/
  | dotted
deriving DecidableEq

inductive Item where
  | value (node : Node)
  | table (origin : Origin) (entries : List (String × Item))
  /-- The tables that headers in double brackets have opened, the latest first. -/
  | tables (latest : List (String × Item)) (earlier : List (List (String × Item)))

/-- The entries of a table; keys are distinct. -/
abbrev Entries := List (String × Item)

def bind (key : String) (item : Item) : Entries → Entries
  | [] => [(key, item)]
  | entry :: rest => if entry.1 = key then (key, item) :: rest else entry :: bind key item rest

/-- Binds the key at the end of a dotted path to a value, in a table of the given origin. -/
def assign (node : Node) (origin : Origin) : (path : List String) → Entries → Option Entries
  | [], _ => none
  | [key], entries =>
    if origin = .implied ∨ (entries.lookup key).isSome then none else some (bind key (.value node) entries)
  | key :: path, entries =>
    match entries.lookup key with
    | none => (assign node .dotted path []).map fun inner => bind key (.table .dotted inner) entries
    | some (.value _) | some (.table .header _) => none
    | some (.table origin inner) =>
      (assign node origin path inner).map fun inner => bind key (.table origin inner) entries
    | some (.tables latest earlier) =>
      (assign node .implied path latest).map fun latest => bind key (.tables latest earlier) entries

/-- Changes the table at a path of a header, where a list of tables stands for its latest. Tables that are missing on
the way are implied. -/
def within (change : Entries → Option Entries) : (path : List String) → Entries → Option Entries
  | [], entries => change entries
  | key :: path, entries =>
    match entries.lookup key with
    | none => (within change path []).map fun inner => bind key (.table .implied inner) entries
    | some (.value _) => none
    | some (.table origin inner) =>
      (within change path inner).map fun inner => bind key (.table origin inner) entries
    | some (.tables latest earlier) =>
      (within change path latest).map fun latest => bind key (.tables latest earlier) entries

def openTable (key : String) (entries : Entries) : Option Entries :=
  match entries.lookup key with
  | none => some (bind key (.table .header []) entries)
  | some (.table .implied inner) => some (bind key (.table .header inner) entries)
  | some _ => none

def openNext (key : String) (entries : Entries) : Option Entries :=
  match entries.lookup key with
  | none => some (bind key (.tables [] []) entries)
  | some (.tables latest earlier) => some (bind key (.tables [] (latest :: earlier)) entries)
  | some _ => none

mutual

def Item.node : Item → Node
  | .value node => node
  | .table _ entries => .table (entryNodes entries)
  | .tables latest earlier => .list ((tableNodes earlier).reverse ++ [.table (entryNodes latest)])

def entryNodes : List (String × Item) → List (Node × Node)
  | [] => []
  | (key, item) :: rest => (.text key, item.node) :: entryNodes rest

def tableNodes : List (List (String × Item)) → List Node
  | [] => []
  | entries :: rest => .table (entryNodes entries) :: tableNodes rest

end

/-- The entries of an inline table, or none if two of its keys clash. -/
def collect? (pairs : List (List String × Node)) : Option (List (Node × Node)) :=
  (pairs.foldlM (fun entries pair => assign pair.2 .header pair.1 entries) []).map entryNodes

end ReactiveLayout.Document.Toml
