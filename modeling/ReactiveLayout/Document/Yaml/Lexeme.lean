import ReactiveLayout.Document.Node
import ReactiveLayout.Document.Yaml.Scalar

/-! The lexemes of a YAML document. Beside its scalars and marks they tell where keys and values stand and where the
collections begin and end that columns bound. A key without a mark is known by the colon behind it only, so the
place where a node may be a key is kept until the colon comes or can come no more. -/
namespace ReactiveLayout.Document.Yaml

inductive Lexeme where
  | documentStart
  | documentEnd
  /-- A list of dashes begins, which stand in one column. -/
  | listStart
  /-- A map of keys begins, which stand in one column. -/
  | mapStart
  /-- A collection ends that columns bound. -/
  | blockEnd
  | flowListStart
  | flowListEnd
  | flowMapStart
  | flowMapEnd
  | comma
  | dash
  | key
  | value
  | scalar (node : Node)

structure Candidate where
  /-- The number of lexemes in front of it. -/
  index : Nat
  place : Located
  /-- It stands in the column of the keys of a map, so it must be one. -/
  required : Bool

/-- A key begins on the line of its colon, at most so many bytes in front of it. -/
def keyLimit : Nat := 1024

def Candidate.isStale (k : Candidate) (c : Located) : Bool :=
  decide (k.place.line < c.line) || decide (k.place.offset + keyLimit < c.offset)

/-- A document as far as its lexemes are known. -/
structure Scan where
  /-- The lexemes found, the latest first. -/
  lexemes : List Lexeme := []
  count : Nat := 0
  /-- The columns of the open collections that columns bound, the innermost first. -/
  columns : List Nat := []
  /-- Whether a node may be a key where the scan has come to. -/
  keyAllowed : Bool := true
  /-- The candidate inside the innermost brackets. -/
  candidate : Option Candidate := none
  /-- The candidates around the brackets that are open, the innermost first. -/
  outer : List (Option Candidate) := []

namespace Scan

def isFlow (s : Scan) : Bool := !s.outer.isEmpty

def add (found : List Lexeme) (s : Scan) : Scan :=
  { s with lexemes := found ++ s.lexemes, count := s.count + found.length }

def push (lexeme : Lexeme) (s : Scan) : Scan := s.add [lexeme]

def insert (index : Nat) (found : List Lexeme) (s : Scan) : Scan :=
  let later := s.count - index
  { s with
    lexemes := s.lexemes.take later ++ found ++ s.lexemes.drop later
    count := s.count + found.length }

def dropCandidate? (s : Scan) : Option Scan :=
  if s.candidate.any (·.required) then none else some { s with candidate := none }

def dropStale? (c : Located) (s : Scan) : Option Scan :=
  if s.candidate.any (·.isStale c) then s.dropCandidate? else some s

def beginNode? (c : Located) (s : Scan) : Option Scan :=
  if s.keyAllowed then do
    let s ← s.dropCandidate?
    let required := !s.isFlow && s.columns.head? == some c.column
    pure { s with candidate := some ⟨s.count, c, required⟩ }
  else some s

/-- Outside brackets, ends the collections with columns that are left. -/
def close (isLeft : Nat → Bool) (s : Scan) : Scan :=
  if s.isFlow then s
  else
    { s.add ((s.columns.takeWhile isLeft).map fun _ => .blockEnd) with columns := s.columns.dropWhile isLeft }

def isDeeper (column : Nat) (s : Scan) : Bool := !s.isFlow && s.columns.head?.all fun outer => decide (outer < column)

/-- Outside brackets, begins a collection with a dash or a key mark, unless it is open already. -/
def beginBlock? (start : Lexeme) (column : Nat) (s : Scan) : Option Scan :=
  if s.isFlow then some s
  else if !s.keyAllowed then none
  else if s.isDeeper column then some { s.push start with columns := column :: s.columns }
  else some s

def openFlow? (start : Lexeme) (c : Located) (s : Scan) : Option Scan := do
  let s ← s.beginNode? c
  pure { s.push start with keyAllowed := true, candidate := none, outer := s.candidate :: s.outer }

def closeFlow? (stop : Lexeme) (s : Scan) : Option Scan := do
  let s ← s.dropCandidate?
  pure { s.push stop with keyAllowed := false, candidate := s.outer.head?.join, outer := s.outer.drop 1 }

/-- Goes behind a colon. If there is a candidate, it turns out to be a key. -/
def keyColon? (c : Located) (s : Scan) : Option Scan :=
  match s.candidate with
  | some k =>
    let s := { s with candidate := none, keyAllowed := false }
    let keyed := if s.isDeeper k.place.column then
        { s.insert k.index [.key, .mapStart] with columns := k.place.column :: s.columns }
      else s.insert k.index [.key]
    some (keyed.push .value)
  | none => do
    let s ← s.beginBlock? .mapStart c.column
    pure { s.push .value with keyAllowed := !s.isFlow }

def scalar? (node : Node) (c : Located) (s : Scan) : Option Scan := do
  let s ← s.beginNode? c
  pure { s.push (.scalar node) with keyAllowed := false }

def step? (s : Scan) (c : Located) (rest : List Located) : Option (Scan × List Located) := do
  let s ← s.dropStale? c
  let s := s.close fun column => decide (c.column < column)
  if isBound (c :: rest) then
    let s ← (s.close fun _ => true).dropCandidate?
    let s := s.push (if c.char == '-' then .documentStart else .documentEnd)
    pure ({ s with keyAllowed := false }, rest.drop 2)
  else if c.char == '%' && c.column == 0 then none
  else
    let isMark := s.isFlow || isEnd rest
    match c.char with
    | '[' => pure (← s.openFlow? .flowListStart c, rest)
    | '\x7b' => pure (← s.openFlow? .flowMapStart c, rest)
    | ']' => pure (← s.closeFlow? .flowListEnd, rest)
    | '\x7d' => pure (← s.closeFlow? .flowMapEnd, rest)
    | ',' =>
      let s ← s.dropCandidate?
      pure ({ s.push .comma with keyAllowed := true }, rest)
    | '"' =>
      let (text, rest) ← doubleQuoted? false [] rest
      pure (← s.scalar? (.text (String.ofList text)) c, rest)
    | '\'' =>
      let (text, rest) ← singleQuoted? [] rest
      pure (← s.scalar? (.text (String.ofList text)) c, rest)
    | other =>
      if other == '-' && isEnd rest then
        let s ← (← s.beginBlock? .listStart c.column).dropCandidate?
        pure ({ s.push .dash with keyAllowed := true }, rest)
      else if other == '?' && isMark then
        let s ← (← s.beginBlock? .mapStart c.column).dropCandidate?
        pure ({ s.push .key with keyAllowed := !s.isFlow }, rest)
      else if other == ':' && isMark then pure (← s.keyColon? c, rest)
      else if isGap other || isIndicator other then none
      else
        let margin := (s.columns.head?.map (· + 1)).getD 0
        let (text, broken, rest) ← plain? s.isFlow margin [] (c :: rest)
        let s ← s.scalar? (.plain (String.ofList text)) c
        pure ({ s with keyAllowed := broken }, rest)

/-- Goes to the first character of the next lexeme, past blanks, line breaks and comments. Outside brackets a key may
stand on every new line, and where it may, no tab stands in front of it. A byte order mark may begin a line. -/
def seek (comment : Bool) (s : Scan) : List Located → Scan × List Located
  | [] => (s, [])
  | c :: rest =>
    if isBreak c.char then seek false { s with keyAllowed := s.keyAllowed || !s.isFlow } rest
    else if comment || c.char == '#' then seek true s rest
    else if c.char == ' ' || (c.char == '\t' && (s.isFlow || !s.keyAllowed)) then seek false s rest
    else if c.char == '\ufeff' && c.column == 0 then seek false s rest
    else (s, c :: rest)

def run? : (fuel : Nat) → Scan → List Located → Option (List Lexeme)
  | 0, _, _ => none
  | fuel + 1, s, text =>
    match s.seek false text with
    | (s, []) => do
      let s ← (s.close fun _ => true).dropCandidate?
      pure s.lexemes.reverse
    | (s, c :: rest) => do
      let (s, rest) ← s.step? c rest
      run? fuel s rest

end Scan

def Lexeme.ofString? (text : String) : Option (List Lexeme) := do
  let text ← characters? text
  Scan.run? (text.length + 1) {} text

end ReactiveLayout.Document.Yaml
