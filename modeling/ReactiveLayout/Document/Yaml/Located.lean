import ReactiveLayout.Document.Character

/-! The characters of a YAML document with their places. Columns tell what belongs to what, and lines tell whether a
key is complete, so every character keeps its place. Of the line breaks, the line separator and the paragraph
separator keep their form in a text; all others are line feeds here. -/
namespace ReactiveLayout.Document.Yaml

structure Located where
  char : Char
  line : Nat
  column : Nat
  /-- The bytes in front of it on its line. -/
  offset : Nat

def isBlank (c : Char) : Bool := c == ' ' || c == '\t'

def isBreak (c : Char) : Bool := c == '\n' || c == '\u2028' || c == '\u2029'

def isGap (c : Char) : Bool := isBlank c || isBreak c

def isEnd : List Located → Bool
  | [] => true
  | c :: _ => isGap c.char

/-- Whether a mark that bounds documents stands here: three dashes or points at the beginning of a line. -/
def isBound : List Located → Bool
  | a :: b :: c :: rest =>
    a.column == 0 && (a.char == '-' || a.char == '.') && a.char == b.char && a.char == c.char && isEnd rest
  | _ => false

/-- What blanks and line breaks between two words fold to. Blanks inside a line stay. A single line feed becomes a
space, and of several breaks a line feed in front is dropped. -/
def fold (gap : List Char) : List Char :=
  match gap.filter isBreak with
  | [] => gap
  | ['\n'] => [' ']
  | '\n' :: breaks => breaks
  | breaks => breaks

def isAllowed (c : Char) : Bool :=
  c ∈ ['\t', '\n', '\r', '\u0085'] || decide (' ' ≤ c ∧ c ≤ '~') ||
    (decide ('\u00a0' ≤ c) && !(c ∈ ['\ufffe', '\uffff']))

/-- Line breaks of one or two characters become line feeds. -/
def uniteBreaks : List Char → List Char
  | '\r' :: '\n' :: rest => '\n' :: uniteBreaks rest
  | c :: rest => (if c == '\r' || c == '\u0085' then '\n' else c) :: uniteBreaks rest
  | [] => []

def locate : (line column offset : Nat) → List Char → List Located
  | _, _, _, [] => []
  | line, column, offset, c :: rest =>
    ⟨c, line, column, offset⟩ ::
      if isBreak c then locate (line + 1) 0 0 rest else locate line (column + 1) (offset + c.utf8Size) rest

/-- The characters of a document, if all of them may occur in one. -/
def characters? (text : String) : Option (List Located) :=
  if text.toList.all isAllowed then some (locate 0 0 0 (uniteBreaks text.toList)) else none

end ReactiveLayout.Document.Yaml
