import ReactiveLayout.Document.Yaml.Lexeme

/-! YAML documents of maps, lists and scalars, without anchors, tags, directives and block scalars. The lexemes tell
where each collection begins and ends, and a part that is missing in front of a mark is the empty scalar. -/
namespace ReactiveLayout.Document.Yaml
open Lexeme

def missing : Node := .plain ""

/-- The reading of nodes nests. From a reading to those inside it, at least every second one takes a lexeme on the
average, so `fuel` is never short when it is twice the number of lexemes and two more. -/
abbrev NodeReader (α : Type) := (fuel : Nat) → List Lexeme → Option (α × List Lexeme)

mutual

/-- A node; outside brackets `block` is set, and where dashes need not stand deeper than a key, `level` is. -/
def node? (block level : Bool) : NodeReader Node
  | 0, _ => none
  | fuel + 1, lexemes =>
    match lexemes with
    | scalar node :: rest => some (node, rest)
    | flowListStart :: rest => (flowItems? fuel rest).map fun (items, rest) => (.list items, rest)
    | flowMapStart :: rest => (flowEntries? fuel rest).map fun (entries, rest) => (.table entries, rest)
    | listStart :: rest =>
      if block then (items? fuel rest).map fun (items, rest) => (.list items, rest) else none
    | mapStart :: rest =>
      if block then (entries? fuel rest).map fun (entries, rest) => (.table entries, rest) else none
    | dash :: _ => if level then (levelItems? fuel lexemes).map fun (items, rest) => (.list items, rest) else none
    | _ => none

def items? : NodeReader (List Node)
  | 0, _ => none
  | fuel + 1, lexemes =>
    match lexemes with
    | blockEnd :: rest => some ([], rest)
    | dash :: rest => do
      let (item, rest) ← match rest with
        | dash :: _ | blockEnd :: _ => some (missing, rest)
        | _ => node? true false fuel rest
      (items? fuel rest).map fun (items, rest) => (item :: items, rest)
    | _ => none

/-- The items of a list whose dashes stand in the column of the key around it. It has no end of its own. -/
def levelItems? : NodeReader (List Node)
  | 0, _ => none
  | fuel + 1, lexemes =>
    match lexemes with
    | dash :: rest => do
      let (item, rest) ← match rest with
        | dash :: _ | key :: _ | value :: _ | blockEnd :: _ => some (missing, rest)
        | _ => node? true false fuel rest
      (levelItems? fuel rest).map fun (items, rest) => (item :: items, rest)
    | rest => some ([], rest)

/-- What stands behind the mark of a key or of a value outside brackets. -/
def part? : NodeReader Node
  | 0, _ => none
  | fuel + 1, lexemes =>
    match lexemes with
    | key :: _ | value :: _ | blockEnd :: _ => some (missing, lexemes)
    | _ => node? true true fuel lexemes

def entries? : NodeReader (List (Node × Node))
  | 0, _ => none
  | fuel + 1, lexemes =>
    match lexemes with
    | blockEnd :: rest => some ([], rest)
    | key :: rest => do
      let (name, rest) ← part? fuel rest
      let (node, rest) ← match rest with
        | value :: rest => part? fuel rest
        | _ => some (missing, rest)
      (entries? fuel rest).map fun (entries, rest) => ((name, node) :: entries, rest)
    | _ => none

/-- The items of a list in brackets, from behind its bracket or a comma. A key makes an item a map of one entry. -/
def flowItems? : NodeReader (List Node)
  | 0, _ => none
  | fuel + 1, lexemes =>
    match lexemes with
    | flowListEnd :: rest => some ([], rest)
    | _ => do
      let (item, rest) ← match lexemes with
        | key :: rest => pair? fuel rest
        | _ => node? false false fuel lexemes
      match rest with
      | flowListEnd :: rest => some ([item], rest)
      | comma :: rest => (flowItems? fuel rest).map fun (items, rest) => (item :: items, rest)
      | _ => none

/-- A map of one entry, from behind its key mark. A mark in the place of the key is taken for a key that is missing. -/
def pair? : NodeReader Node
  | 0, _ => none
  | fuel + 1, lexemes => do
    let (name, rest) ← match lexemes with
      | value :: rest | comma :: rest | flowListEnd :: rest => some (missing, rest)
      | _ => node? false false fuel lexemes
    (flowValue? fuel rest).map fun (node, rest) => (.table [(name, node)], rest)

/-- The entries of a map in braces, from behind its brace or a comma. A node without a key mark is a key as well, which
has no value. -/
def flowEntries? : NodeReader (List (Node × Node))
  | 0, _ => none
  | fuel + 1, lexemes =>
    match lexemes with
    | flowMapEnd :: rest => some ([], rest)
    | _ => do
      let (entry, rest) ← match lexemes with
        | key :: rest => do
          let (name, rest) ← match rest with
            | value :: _ | comma :: _ | flowMapEnd :: _ => some (missing, rest)
            | _ => node? false false fuel rest
          (flowValue? fuel rest).map fun (node, rest) => ((name, node), rest)
        | _ => (node? false false fuel lexemes).map fun (name, rest) => ((name, missing), rest)
      match rest with
      | flowMapEnd :: rest => some ([entry], rest)
      | comma :: rest => (flowEntries? fuel rest).map fun (entries, rest) => (entry :: entries, rest)
      | _ => none

/-- The value of a key inside brackets. Its mark may be missing, too. -/
def flowValue? : NodeReader Node
  | 0, _ => none
  | fuel + 1, lexemes =>
    match lexemes with
    | value :: rest =>
      match rest with
      | comma :: _ | flowListEnd :: _ | flowMapEnd :: _ => some (missing, rest)
      | _ => node? false false fuel rest
    | _ => some (missing, lexemes)

end

/-- The node of the first document, and the lexemes behind it. A text without any lexeme is a document, too. -/
def document? (lexemes : List Lexeme) : Option (Node × List Lexeme) :=
  let content (rest : List Lexeme) := node? true false (2 * rest.length + 2) rest
  match lexemes with
  | [] | [documentStart] => some (missing, [])
  | documentStart :: rest@(documentEnd :: _) => some (missing, rest)
  | documentStart :: rest => content rest
  | rest => content rest

def parse? (text : String) : Option Node := do
  let lexemes ← Lexeme.ofString? text
  let (node, rest) ← document? lexemes
  if rest.all fun | documentEnd => true | _ => false then some node else none

end ReactiveLayout.Document.Yaml
