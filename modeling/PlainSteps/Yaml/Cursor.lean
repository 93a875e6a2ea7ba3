/-!
# Places in a text

* `Cursor` : what is left of a text, with the line and the column it begins at.
* `isBreak`, `endsLine`, `endsWord` : where lines and words end.
* `Cursor.atDocumentMark` : a line of three hyphens or points, which divides documents.
-/

namespace PlainSteps.Yaml

/-- What is left of a text, and where it begins. -/
structure Cursor where
  rest : List Char
  /-- How many characters come before. -/
  index : Nat
  line : Nat
  column : Nat

def isBreak (c : Char) : Bool :=
  c == '\r' || c == '\n' || c == '\u0085' || c == '\u2028' || c == '\u2029'

def isGap (c : Char) : Bool :=
  c == ' ' || c == '\t'

/-- Whether a line ends before a character; it does at the end of the text. -/
def endsLine : Option Char → Bool
  | none => true
  | some c => isBreak c

/-- Whether a word ends before a character; it does at the end of the text. -/
def endsWord : Option Char → Bool
  | none => true
  | some c => isGap c || isBreak c

/-- Whether a character is there and passes a test. -/
def holds (p : Char → Bool) : Option Char → Bool
  | none => false
  | some c => p c

namespace Cursor

def start (text : List Char) : Cursor := ⟨text, 0, 0, 0⟩

def head? (c : Cursor) : Option Char := c.rest.head?

def ahead? (c : Cursor) (n : Nat) : Option Char := c.rest[n]?

def skip (c : Cursor) (n : Nat) : Cursor :=
  ⟨c.rest.drop n, c.index + n, c.line, c.column + n⟩

/-- Past the end of a line, if one is here. -/
def skipBreak (c : Cursor) : Cursor :=
  match c.rest with
  | '\r' :: '\n' :: rest => ⟨rest, c.index + 2, c.line + 1, 0⟩
  | d :: rest => if isBreak d then ⟨rest, c.index + 1, c.line + 1, 0⟩ else c
  | [] => c

/-- The end of a line as it counts in a text: separators of lines and paragraphs stay, all others
become line feeds. -/
def breakText (c : Cursor) : List Char :=
  match c.head? with
  | none => []
  | some d => if d == '\u2028' || d == '\u2029' then [d] else if isBreak d then ['\n'] else []

/-- The characters that pass a test, and the place after them. The test must refuse ends of
lines. -/
def takeWhile (p : Char → Bool) (c : Cursor) : List Char × Cursor :=
  let taken := c.rest.takeWhile p
  (taken, c.skip taken.length)

/-- Past the characters that pass a test, which must refuse ends of lines. -/
def skipWhile (p : Char → Bool) (c : Cursor) : Cursor :=
  (c.takeWhile p).2

/-- Past a comment, if one is here. -/
def skipComment (c : Cursor) : Cursor :=
  if c.head? == some '#' then c.skipWhile (fun d => !isBreak d) else c

/-- Whether the next three characters are these and end a word. -/
def atTriple (mark : Char) (c : Cursor) : Bool :=
  c.ahead? 0 == some mark && c.ahead? 1 == some mark && c.ahead? 2 == some mark &&
    endsWord (c.ahead? 3)

/-- Whether a line begins here that divides documents. -/
def atDocumentMark (c : Cursor) : Bool :=
  c.column == 0 && (c.atTriple '-' || c.atTriple '.')

end Cursor

end PlainSteps.Yaml
