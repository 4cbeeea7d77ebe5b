import ReactiveLayout.Document.Yaml.Located

/-! Scalars of YAML, with or without quotes. A scalar is read character by character; what separates two of its words
is gathered, the latest character first, and folded when the second word begins. -/
namespace ReactiveLayout.Document.Yaml

/-- What an escape stands for and the number of characters that it takes; the text begins behind its backslash. -/
def escape? : List Located → Option (Char × Nat)
  | [] => none
  | c :: rest =>
    let code (digits : Nat) :=
      (characterByCode? digits ((rest.take digits).map (·.char))).map fun (c, _) => (c, digits + 1)
    match c.char with
    | '0' => some ('\x00', 1)
    | 'a' => some ('\x07', 1)
    | 'b' => some ('\x08', 1)
    | 't' | '\t' => some ('\t', 1)
    | 'n' => some ('\n', 1)
    | 'v' => some ('\x0b', 1)
    | 'f' => some ('\x0c', 1)
    | 'r' => some ('\r', 1)
    | 'e' => some ('\x1b', 1)
    | 'N' => some ('\u0085', 1)
    | '_' => some ('\u00a0', 1)
    | 'L' => some ('\u2028', 1)
    | 'P' => some ('\u2029', 1)
    | 'x' => code 2
    | 'u' => code 4
    | 'U' => code 8
    | c => if c == ' ' || c == '"' || c == '/' || c == '\\' then some (c, 1) else none

/-- A scalar in single quotes, from behind the first. Two quotes stand for one. -/
def singleQuoted? (gap : List Char) : List Located → Option (List Char × List Located)
  | [] => none
  | c :: rest =>
    if isGap c.char then singleQuoted? (c.char :: gap) rest
    else if isBound (c :: rest) then none
    else if c.char != '\'' then
      (singleQuoted? [] rest).map fun (body, behind) => (fold gap.reverse ++ c.char :: body, behind)
    else
      match rest with
      | ⟨'\'', _, _, _⟩ :: rest =>
        (singleQuoted? [] rest).map fun (body, behind) => (fold gap.reverse ++ '\'' :: body, behind)
      | rest => some (fold gap.reverse, rest)

/-- A scalar in double quotes, from behind the first. A line break behind a backslash is dropped; `joined` tells that
the gap begins with one, which leaves of the gap its other line breaks alone. -/
def doubleQuoted? (joined : Bool) (gap : List Char) : List Located → Option (List Char × List Located)
  | [] => none
  | c :: rest =>
    if isGap c.char then doubleQuoted? joined (c.char :: gap) rest
    else if isBound (c :: rest) then none
    else
      let start := if joined then gap.reverse.filter isBreak else fold gap.reverse
      if c.char == '"' then some (start, rest)
      else if c.char != '\\' then
        (doubleQuoted? false [] rest).map fun (body, behind) => (start ++ c.char :: body, behind)
      else if rest.head?.any fun next => isBreak next.char then
        (doubleQuoted? true [] (rest.drop 1)).map fun (body, behind) => (start ++ body, behind)
      else
        match escape? rest with
        | none => none
        | some (meant, taken) =>
          (doubleQuoted? false [] (rest.drop taken)).map fun (body, behind) => (start ++ meant :: body, behind)
termination_by text => text.length

def isFlowMark (c : Char) : Bool := c ∈ [',', '[', ']', '\x7b', '\x7d']

def isIndicator (c : Char) : Bool := isFlowMark c || c ∈ ['#', '&', '*', '!', '|', '>', '\'', '"', '%', '@', '\x60']

/-- Whether a plain scalar ends in front of a character that is not blank: at a bound of the document, at a comment,
at a colon that ends a word, at a mark of a collection inside brackets, and outside brackets on a line that is
indented by less than the margin. -/
def endsPlain (flow : Bool) (margin : Nat) (gap : List Char) (c : Located) (rest : List Located) : Bool :=
  isBound (c :: rest) || (c.char == '#' && !gap.isEmpty) || (c.char == ':' && isEnd rest) ||
    if flow then isFlowMark c.char else !gap.isEmpty && decide (c.column < margin)

/-- A plain scalar, with the text behind it and the blanks that follow, and whether those hold a line break. Inside
brackets a colon may not stand in front of a mark of a collection or a question mark, and nowhere may a tab stand
among the first columns of a line, up to the margin. -/
def plain? (flow : Bool) (margin : Nat) (gap : List Char) : List Located → Option (List Char × Bool × List Located)
  | [] => some ([], gap.any isBreak, [])
  | c :: rest =>
    if isGap c.char then
      if c.char == '\t' && gap.any isBreak && decide (c.column < margin) then none
      else plain? flow margin (c.char :: gap) rest
    else if endsPlain flow margin gap c rest then some ([], gap.any isBreak, c :: rest)
    else if flow && c.char == ':' && (rest.head?.any fun next => isFlowMark next.char || next.char == '?') then none
    else (plain? flow margin [] rest).map fun (text, behind) => (fold gap.reverse ++ c.char :: text, behind)

end ReactiveLayout.Document.Yaml
