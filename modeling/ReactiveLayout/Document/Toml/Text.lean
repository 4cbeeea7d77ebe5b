import ReactiveLayout.Document.Character

/-! Strings and keys of TOML. A reader takes the characters in front of it and answers what it read with the rest;
line breaks are line feeds here, the document having been brought to that form before. -/
namespace ReactiveLayout.Document.Toml

def isBlank (c : Char) : Bool := c == ' ' || c == '\t'

def dropBlank (text : List Char) : List Char := text.dropWhile isBlank

/-- A character that may stand for itself in a comment or a string: a tab, or one that is not a control character. -/
def isPrintable (c : Char) : Bool := c == '\t' || decide (' ' ≤ c) && c != '\x7f'

def escape? : List Char → Option (Char × List Char)
  | 'b' :: rest => some ('\x08', rest)
  | 't' :: rest => some ('\t', rest)
  | 'n' :: rest => some ('\n', rest)
  | 'f' :: rest => some ('\x0c', rest)
  | 'r' :: rest => some ('\r', rest)
  | '"' :: rest => some ('"', rest)
  | '\\' :: rest => some ('\\', rest)
  | 'u' :: rest => characterByCode? 4 rest
  | 'U' :: rest => characterByCode? 8 rest
  | _ => none

/-- A string on one line, from behind its opening quote. A `verbatim` one knows no escapes. Each step takes at least
one character, so `fuel` need not exceed the length of the text. -/
def lineString? (quote : Char) (verbatim : Bool) : (fuel : Nat) → List Char → Option (List Char × List Char)
  | 0, _ | _, [] => none
  | fuel + 1, c :: rest =>
    if c = quote then some ([], rest)
    else do
      let (c, rest) ←
        if c = '\\' ∧ !verbatim then escape? rest else if isPrintable c then some (c, rest) else none
      let (body, rest) ← lineString? quote verbatim fuel rest
      pure (c :: body, rest)

/-- What stands behind a backslash at the end of a line: all blanks and line breaks up to the next other character. -/
def continued? (text : List Char) : Option (List Char) :=
  match dropBlank text with
  | '\n' :: rest => some (rest.dropWhile fun c => isBlank c || c == '\n')
  | _ => none

/-- A string that may go over lines, from behind its opening quotes. Three quotes close it, and up to two more in
front of them belong to it. -/
def linesString? (quote : Char) (verbatim : Bool) : (fuel : Nat) → List Char → Option (List Char × List Char)
  | 0, _ | _, [] => none
  | fuel + 1, c :: rest =>
    if c = quote then
      let run := (c :: rest).takeWhile (· == quote)
      let rest := (c :: rest).dropWhile (· == quote)
      if 6 ≤ run.length then none
      else if 3 ≤ run.length then some (run.drop 3, rest)
      else (linesString? quote verbatim fuel rest).map fun (body, rest) => (run ++ body, rest)
    else if c = '\\' ∧ !verbatim then
      match continued? rest with
      | some rest => linesString? quote verbatim fuel rest
      | none => do
        let (c, rest) ← escape? rest
        let (body, rest) ← linesString? quote verbatim fuel rest
        pure (c :: body, rest)
    else if isPrintable c || c == '\n' then
      (linesString? quote verbatim fuel rest).map fun (body, rest) => (c :: body, rest)
    else none

/-- The line break right behind the opening quotes does not belong to the string. -/
private def dropBreak : List Char → List Char
  | '\n' :: rest => rest
  | text => text

def string? (text : List Char) : Option (List Char × List Char) :=
  match text with
  | '"' :: '"' :: '"' :: rest => linesString? '"' false rest.length (dropBreak rest)
  | '\'' :: '\'' :: '\'' :: rest => linesString? '\'' true rest.length (dropBreak rest)
  | '"' :: rest => lineString? '"' false rest.length rest
  | '\'' :: rest => lineString? '\'' true rest.length rest
  | _ => none

def isBare (c : Char) : Bool := c.isAlphanum || c == '_' || c == '-'

def simpleKey? (text : List Char) : Option (String × List Char) :=
  match text with
  | '"' :: rest => (lineString? '"' false rest.length rest).map fun (name, rest) => (String.ofList name, rest)
  | '\'' :: rest => (lineString? '\'' true rest.length rest).map fun (name, rest) => (String.ofList name, rest)
  | text =>
    match text.takeWhile isBare with
    | [] => none
    | name => some (String.ofList name, text.dropWhile isBare)

/-- Arrays, inline tables and keys are refused when they have this depth. -/
def depthLimit : Nat := 80

/-- Parts of a key joined by dots, with blanks around each part. -/
def key? : (fuel : Nat) → List Char → Option (List String × List Char)
  | 0, _ => none
  | fuel + 1, text => do
    let (first, rest) ← simpleKey? (dropBlank text)
    match dropBlank rest with
    | '.' :: rest => (key? fuel rest).map fun (others, rest) => (first :: others, rest)
    | rest => some ([first], rest)

end ReactiveLayout.Document.Toml
