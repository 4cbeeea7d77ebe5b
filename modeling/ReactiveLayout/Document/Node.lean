import ReactiveLayout.Decimal.Numeral
import ReactiveLayout.Document.Character

/-! The content of a document, whatever format it is written in. One format marks the type of every scalar; the other
leaves a scalar without quotes to the place where it stands. Such a scalar is kept as it is written, and is resolved
by the schema below only where a place admits several types. -/
namespace ReactiveLayout.Document

inductive Node where
  /-- A scalar without quotes, whose type its place decides. -/
  | plain (text : String)
  | text (value : String)
  /-- A whole number. A zero may be negative as it is written. -/
  | integer (negative : Bool) (magnitude : Nat)
  | real (value : Float)
  | flag (value : Bool)
  | null
  | list (items : List Node)
  /-- Keys may be of any type and may occur more than once. -/
  | table (entries : List (Node × Node))

namespace Schema

def isNull (text : String) : Bool := text ∈ ["", "~", "null", "Null", "NULL"]

def flag? (text : String) : Option Bool :=
  if text ∈ ["true", "True", "TRUE"] then some true
  else if text ∈ ["false", "False", "FALSE"] then some false
  else none

/-- Digits with a zero in front of others are a text. -/
def isPadded (text : List Char) : Bool :=
  let digits := match text with
    | '+' :: rest | '-' :: rest => rest
    | rest => rest
  match digits with
  | '0' :: rest => !rest.isEmpty && rest.all Char.isDigit
  | _ => false

/-- A whole number without a sign: in a base told by its mark, or decimal. -/
def magnitude? (text : List Char) : Option Nat :=
  match text with
  | '0' :: 'x' :: digits => natural? 16 digits
  | '0' :: 'o' :: digits => natural? 8 digits
  | '0' :: 'b' :: digits => natural? 2 digits
  | digits => natural? 10 digits

def integer? (text : List Char) : Option (Bool × Nat) :=
  if isPadded text then none
  else
    match text with
    | '-' :: rest => (magnitude? rest).map (true, ·)
    | '+' :: rest | rest => (magnitude? rest).map (false, ·)

/-- A number in decimal notation, or one of the names of the values that are not finite. A numeral beyond the finite
range is none. -/
def real? (text : String) : Option Float :=
  if text ∈ [".nan", ".NaN", ".NAN"] then some (0.0 / 0.0)
  else if text ∈ ["-.inf", "-.Inf", "-.INF"] then some (-1.0 / 0.0)
  else if text ∈ [".inf", ".Inf", ".INF", "+.inf", "+.Inf", "+.INF"] then some (1.0 / 0.0)
  else ((Decimal.Numeral.read? text.toList).map (·.toFloat)).filter Float.isFinite

/-- Whether a whole number fits into so many bits, with a sign if it is negative and without one if it is not. -/
def isWithin (bits : Nat) (negative : Bool) (magnitude : Nat) : Bool :=
  if negative then decide (magnitude ≤ Nat.pow 2 (bits - 1)) else decide (magnitude < Nat.pow 2 bits)

/-- The node of a plain scalar where several types are admitted: nothing, a flag, an integer, another number, or a
text. There is none for an integer of more than 64 bits and at most 128; a larger one is a number like any other. -/
def resolve? (text : String) : Option Node :=
  let decimal := (if isPadded text.toList then none else real? text).elim (.text text) Node.real
  if isNull text then some .null
  else
    match flag? text, integer? text.toList with
    | some value, _ => some (.flag value)
    | none, none => some decimal
    | none, some (negative, magnitude) =>
      if isWithin 64 negative magnitude then some (.integer negative magnitude)
      else if isWithin 128 negative magnitude then none
      else some decimal

end Schema

namespace Node

mutual

/-- The number of collections around the innermost scalar, that of a key included. -/
def depth : Node → Nat
  | .list items => depthOfList items + 1
  | .table entries => depthOfEntries entries + 1
  | _ => 0

def depthOfList : List Node → Nat
  | [] => 0
  | item :: rest => max item.depth (depthOfList rest)

def depthOfEntries : List (Node × Node) → Nat
  | [] => 0
  | (key, value) :: rest => max (max key.depth value.depth) (depthOfEntries rest)

end

mutual

/-- The node with the types that a place of several types gives to its plain scalars, if it has one for each. -/
def resolve? : Node → Option Node
  | .plain scalar => Schema.resolve? scalar
  | .list items => (resolveList? items).map .list
  | .table entries => (resolveEntries? entries).map .table
  | node => some node

def resolveList? : List Node → Option (List Node)
  | [] => some []
  | item :: rest => do
    let first ← item.resolve?
    let others ← resolveList? rest
    pure (first :: others)

def resolveEntries? : List (Node × Node) → Option (List (Node × Node))
  | [] => some []
  | (key, value) :: rest => do
    let first ← key.resolve?
    let second ← value.resolve?
    let others ← resolveEntries? rest
    pure ((first, second) :: others)

end

def number? : Node → Option Float
  | .integer negative magnitude => some (Decimal.nearest (if negative then -(magnitude : Rat) else magnitude))
  | .real value => some value
  | _ => none

def asNumber? : Node → Option Float
  | .plain scalar => Schema.real? scalar
  | node => node.number?

def asFlag? : Node → Option Bool
  | .plain scalar => Schema.flag? scalar
  | .flag value => some value
  | _ => none

def asText? : Node → Option String
  | .plain value | .text value => some value
  | _ => none

/-- The items at a place that takes a list. Nothing at all is an empty list. -/
def asList? : Node → Option (List Node)
  | .list items => some items
  | .plain "" => some []
  | _ => none

/-- The entries at a place that takes a table whose keys are names. Nothing at all is an empty table. -/
def asTable? : Node → Option (List (String × Node))
  | .table entries => entries.mapM fun e => e.1.asText?.map fun name => (name, e.2)
  | .plain "" => some []
  | _ => none

end Node

/-- The nodes of the first `count` fields of a record, whose entries stand under the numbers of their fields. No field
may occur twice, and numbers of other fields mean nothing. -/
def fieldsOf? (count : Nat) (entries : List (Nat × Node)) : Option (List (Option Node)) :=
  if (List.range count).any fun i => decide (1 < entries.countP fun e => e.1 == i) then none
  else some ((List.range count).map fun i => entries.lookup i)

end ReactiveLayout.Document
