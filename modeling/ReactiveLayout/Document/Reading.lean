import ReactiveLayout.Document.Blueprint
import ReactiveLayout.Document.Toml
import ReactiveLayout.Document.Yaml
import ReactiveLayout.Settings

/-! Blueprints and settings from documents. Fields that are left out keep their standard values, keys that name no
field mean nothing, and everything else must have the type of its place. -/
namespace ReactiveLayout

namespace Document

inductive Format where
  | toml
  | yaml
deriving Repr, DecidableEq

def Format.parse? : Format → String → Option Node
  | toml => Toml.parse?
  | yaml => Yaml.parse?

/-- How deep the collections of what is read may nest in the format, where it has a limit. -/
def Format.depthLimit? : Format → Option Nat
  | toml => none
  | yaml => some 128

def Format.admits (format : Format) (field : Node) : Bool :=
  format.depthLimit?.all fun limit => decide (field.depth < limit)

def Format.fault : Format → ConfigError Float
  | toml => .toml
  | yaml => .yaml

def recordOf? (names : List String) (node : Node) : Option (List (Option Node)) := do
  let entries ← node.asTable?
  fieldsOf? names.length (entries.map fun e => (names.idxOf e.1, e.2))

/-- The number of the field `value` or of another one, as a resolved key gives it: by its name or as a number. -/
def QuantityEntry.fieldNumber? : Node → Option Nat
  | .text name => some (["value"].idxOf name)
  | .integer false index => some index
  | _ => none

/-- A quantity is a number or a record with one number in the field `value`. -/
def QuantityEntry.ofNode? (node : Node) : Option (QuantityEntry Float) := do
  match ← node.resolve? with
  | .table entries => do
    let fields ← entries.mapM fun e => (fieldNumber? e.1).map fun number => (number, e.2)
    let value ← (← fieldsOf? 1 fields).head?.join
    value.number?.map .descriptor
  | node => node.number?.map .number

mutual

def TermEntry.ofResolved? : Node → Option (TermEntry Float)
  | .list items => (TermEntry.ofResolvedList? items).map .list
  | .text value => some (.text value)
  | node => node.number?.map .number

def TermEntry.ofResolvedList? : List Node → Option (List (TermEntry Float))
  | [] => some []
  | item :: rest => do
    let first ← TermEntry.ofResolved? item
    let others ← TermEntry.ofResolvedList? rest
    pure (first :: others)

end

/-- A formula or an element of a rule is a number, a text or a list of such. -/
def TermEntry.ofNode? (node : Node) : Option (TermEntry Float) := node.resolve?.bind ofResolved?

/-- A table whose entries have values of one kind. Of equal keys the last counts. -/
def tableOf? {α : Type} (read : Node → Option α) (node : Node) : Option (NameTable α) := do
  let entries ← node.asTable?
  let values ← entries.mapM fun e => (read e.2).map fun value => (e.1, value)
  pure (.ofList values)

/-- The value of a field, or the standard one if it is left out. -/
def fieldOr? {α : Type} (read : Node → Option α) (standard : α) : Option Node → Option α
  | some node => read node
  | none => some standard

def rulesOf? (node : Node) : Option (List (List (TermEntry Float))) := do
  let tuples ← node.asList?
  tuples.mapM fun tuple => do
    let elements ← tuple.asList?
    elements.mapM TermEntry.ofNode?

def Blueprint.ofNode? (format : Format) (node : Node) : Option (Blueprint Float) := do
  let fields ← recordOf? ["quantities", "formulas", "rules"] node
  if fields.any fun field => field.any fun node => !format.admits node then none
  match fields with
  | [quantities, formulas, rules] =>
    let quantities ← fieldOr? (tableOf? QuantityEntry.ofNode?) ∅ quantities
    let formulas ← fieldOr? (tableOf? TermEntry.ofNode?) ∅ formulas
    let rules ← fieldOr? rulesOf? [] rules
    pure { quantities, formulas, rules }
  | _ => none

/-- The blueprint of a document, whose contents are none if it cannot be read. -/
def Blueprint.read (format : Format) (contents : Option String) : Except (ConfigError Float) (Blueprint Float) :=
  match contents with
  | none => .error .unreadable
  | some text =>
    match (format.parse? text).bind (ofNode? format) with
    | none => .error format.fault
    | some blueprint => .ok blueprint

end Document

namespace Settings
open Document

/-- A strength by its name. Where the format lets a table of one entry choose, its entry may also hold nothing. -/
def strengthOf? (format : Format) (node : Node) : Option Strength :=
  let name := match format, node with
    | .toml, .table [(name, .table [])] | .toml, .table [(name, .list [])] => name
    | _, node => node
  name.asText?.bind Strength.ofName?

def ofNode? (format : Format) (node : Node) : Option (Settings Float) := do
  let standard : Settings Float := .standard
  match ← recordOf? ["edit_strength", "register_rules", "change_tolerance"] node with
  | [strength, register, tolerance] =>
    let editStrength ← fieldOr? (strengthOf? format) standard.editStrength strength
    let registerRules ← fieldOr? Node.asFlag? standard.registerRules register
    let changeTolerance ← fieldOr? Node.asNumber? standard.changeTolerance tolerance
    pure { editStrength, registerRules, changeTolerance }
  | _ => none

/-- The settings of a document, whose contents are none if it cannot be read. They must be valid. -/
def read (format : Format) (contents : Option String) : Except (ConfigError Float) (Settings Float) :=
  match contents with
  | none => .error .unreadable
  | some text =>
    match (format.parse? text).bind (ofNode? format) with
    | none => .error format.fault
    | some settings =>
      match settings.validate with
      | .error e => .error e
      | .ok () => .ok settings

end Settings
end ReactiveLayout
