import ReactiveLayout.Document.Toml.Number
import ReactiveLayout.Document.Toml.Table
import ReactiveLayout.Document.Toml.Text

/-! TOML documents. A document is a sequence of statements, each on lines of its own: a header turns to a table, and
a key with a value binds the key there. -/
namespace ReactiveLayout.Document.Toml

def dropComment? (text : List Char) : Option (List Char) :=
  match text with
  | '#' :: _ =>
    let comment := text.takeWhile (· != '\n')
    if comment.all isPrintable then some (text.dropWhile (· != '\n')) else none
  | text => some text

/-- Leaves out blanks, line breaks and comments. Each line takes one step of `fuel`. -/
def dropLines? : (fuel : Nat) → List Char → Option (List Char)
  | 0, _ => none
  | fuel + 1, text => do
    match ← dropComment? (dropBlank text) with
    | '\n' :: rest => dropLines? fuel rest
    | rest => some rest

/-- The reading of values nests, so it is bounded twice: `fuel` counts steps and is never short when it is twice the
length of the text, and `depth` is the number of brackets that may still be opened. -/
abbrev ValueReader (α : Type) := (fuel depth : Nat) → List Char → Option (α × List Char)

mutual

def value? : ValueReader Node
  | 0, _, _ => none
  | fuel + 1, depth, text =>
    match text, depth with
    | '"' :: _, _ | '\'' :: _, _ => (string? text).map fun (s, rest) => (.text (String.ofList s), rest)
    | '[' :: _, 0 | '\x7b' :: _, 0 => none
    | '[' :: rest, depth + 1 => (items? fuel depth rest).map fun (items, rest) => (.list items, rest)
    | '\x7b' :: rest, depth + 1 => do
      let (found, rest) ← match dropBlank rest with
        | '\x7d' :: rest => some ([], rest)
        | rest => pairs? fuel depth rest
      let entries ← collect? found
      pure (.table entries, rest)
    | text, _ =>
      let (taken, rest) := run text
      (scalar? taken).map fun node => (node, rest)

def items? : ValueReader (List Node)
  | 0, _, _ => none
  | fuel + 1, depth, text => do
    match ← dropLines? (text.length + 1) text with
    | ']' :: rest => some ([], rest)
    | rest =>
      let (item, rest) ← value? fuel depth rest
      match ← dropLines? (rest.length + 1) rest with
      | ']' :: rest => some ([item], rest)
      | ',' :: rest => (items? fuel depth rest).map fun (items, rest) => (item :: items, rest)
      | _ => none

def pairs? : ValueReader (List (List String × Node))
  | 0, _, _ => none
  | fuel + 1, depth, text => do
    let (pair, rest) ← pair? fuel depth text
    match dropBlank rest with
    | '\x7d' :: rest => some ([pair], rest)
    | ',' :: rest => (pairs? fuel depth rest).map fun (others, rest) => (pair :: others, rest)
    | _ => none

def pair? : ValueReader (List String × Node)
  | 0, _, _ => none
  | fuel + 1, depth, text => do
    let (path, rest) ← key? (depthLimit - 1) text
    match rest with
    | '=' :: rest => (value? fuel depth (dropBlank rest)).map fun (node, rest) => ((path, node), rest)
    | _ => none

end

/-- A document as far as it has been read: its entries, and the path of the table that keys are bound in. -/
structure Reading where
  entries : Entries := []
  current : List String := []

def Reading.turn? (r : Reading) (path : List String) (listed : Bool) : Option Reading := do
  let last ← path.getLast?
  let entries ← within (if listed then openNext last else openTable last) path.dropLast r.entries
  pure ⟨entries, path⟩

/-- Reads one statement, which may be empty, up to the blanks behind it. -/
def statement? (r : Reading) (text : List Char) : Option (Reading × List Char) :=
  match text with
  | [] | '\n' :: _ | '#' :: _ => some (r, text)
  | '[' :: '[' :: rest => do
    let (path, rest) ← key? (depthLimit - 1) rest
    match rest with
    | ']' :: ']' :: rest => (r.turn? path true).map fun r => (r, dropBlank rest)
    | _ => none
  | '[' :: rest => do
    let (path, rest) ← key? (depthLimit - 1) rest
    match rest with
    | ']' :: rest => (r.turn? path false).map fun r => (r, dropBlank rest)
    | _ => none
  | text => do
    let ((path, node), rest) ← pair? (2 * text.length + 2) (depthLimit - 1) text
    let entries ← within (assign node .header path) r.current r.entries
    pure ({ r with entries }, dropBlank rest)

/-- Reads statements to the end of the text, a line or more in each step. -/
def statements? : (fuel : Nat) → Reading → List Char → Option Reading
  | 0, _, _ => none
  | fuel + 1, r, text => do
    let (r, rest) ← statement? r (dropBlank text)
    match ← dropComment? rest with
    | [] => some r
    | '\n' :: rest => statements? fuel r rest
    | _ => none

def uniteBreaks : List Char → List Char
  | '\r' :: '\n' :: rest => '\n' :: uniteBreaks rest
  | c :: rest => c :: uniteBreaks rest
  | [] => []

/-- A byte order mark in front of a document does not belong to it. -/
def dropMark : List Char → List Char
  | '\ufeff' :: rest => rest
  | text => text

/-- The table that a document describes, or none if the text is no document. -/
def parse? (text : String) : Option Node := do
  let text := uniteBreaks (dropMark text.toList)
  let r ← statements? (text.length + 1) {} text
  pure (.table (entryNodes r.entries))

end ReactiveLayout.Document.Toml
