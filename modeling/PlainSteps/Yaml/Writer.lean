import PlainSteps.Text.Escape
import PlainSteps.Yaml.Reader

/-!
# YAML text

* `Yaml.document` : JSON data as a YAML document of blocks. A list is as deep as the map around it.
* `Yaml.Style` : the notations of a text. It is written plain where that reads back as the same text,
  in a block of its own if it has several lines, and else between quotes.
-/

namespace PlainSteps.Yaml

open PlainSteps.Number

/-! ## Styles -/

/-- A notation for a text. -/
inductive Style where
  | plain
  | singleQuoted
  | doubleQuoted
  | literal
  deriving DecidableEq, Repr

def isPrintable (c : Char) : Bool :=
  c == '\n' || (' ' ≤ c && c ≤ '~') ||
    (0xa0 ≤ c.toNat && c.toNat ≤ 0xfffd && c.toNat != 0xfeff) || 0x10000 ≤ c.toNat

/-- Whether two characters that pass these tests stand side by side. -/
def meet (p q : Char → Bool) : List Char → Bool
  | c :: d :: s => (p c && q d) || meet p q (d :: s)
  | _ => false

/-- The characters that no plain scalar begins with. -/
def indicators : List Char := "#,[]\x7b\x7d&*!|>'\"%@`".toList

/-- Whether a text begins like something else than a plain scalar. -/
def beginsSpecial : List Char → Bool
  | [] => false
  | c :: s =>
    indicators.contains c || (['?', ':', '-'].contains c && endsWord s.head?) ||
      Text.startsWith "---".toList (c :: s) || Text.startsWith "...".toList (c :: s)

/-- Whether a text holds the end of a key or the beginning of a comment. -/
def holdsMark : List Char → Bool
  | [] => false
  | c :: s =>
    (c == ':' && endsWord s.head?) || (endsWord (some c) && s.head? == some '#') || holdsMark s

def isSpace (c : Char) : Bool := c == ' '

/-- Whether quotes can be set around a text as it is. -/
def allowsQuotes (s : List Char) : Bool :=
  s.all isPrintable && !meet isSpace isBreak s && !meet isBreak isSpace s

/-- Whether a text can stand in a block of its own. -/
def allowsLiteral (s : List Char) : Bool :=
  s.all isPrintable && !meet isSpace isBreak s && s.getLast? != some ' '

def allowsPlain (s : List Char) : Bool :=
  s.all isPrintable && !s.any isBreak && s.head? != some ' ' && s.getLast? != some ' ' &&
    !beginsSpecial s && !holdsMark s

/-- Whether a plain scalar of this text would be taken for something else. -/
def isAmbiguous (s : String) : Bool :=
  match plainValue? s with
  | some (.string _) => isPadded s.toList
  | _ => true

def styleOf (s : String) : Style :=
  let cs := s.toList
  if cs.contains '\n' then if allowsLiteral cs then .literal else .doubleQuoted
  else if !isAmbiguous s && allowsPlain cs then .plain
  else if allowsQuotes cs then .singleQuoted
  else .doubleQuoted

/-! ## Scalars -/

/-- A line of the document, with the break at its end. -/
abbrev Line := List Char

/-- A line two places further in; an empty one stays as it is. -/
def inward (l : Line) : Line :=
  if holds isBreak l.head? then l else ' ' :: ' ' :: l

/-- The lines of a text, each with the break at its end. -/
def linesOf : List Char → List Line
  | [] => []
  | c :: s =>
    if isBreak c then [c] :: linesOf s
    else
      match linesOf s with
      | [] => [[c]]
      | l :: ls => (c :: l) :: ls

/-- The letters of single characters after a backslash. -/
def escapeLetters : List (Nat × Char) :=
  [(0, '0'), (7, 'a'), (8, 'b'), (9, 't'), (10, 'n'), (11, 'v'), (12, 'f'), (13, 'r'), (27, 'e'),
    (0x22, '"'), (0x5c, '\\'), (0x85, 'N'), (0xa0, '_'), (0x2028, 'L'), (0x2029, 'P')]

/-- A character by its number, in as few digits as its size allows. -/
def escapeCode (c : Char) : List Char :=
  let digits := (Text.hexText c.toNat).map Text.upper
  let (mark, width) : Char × Nat :=
    if c.toNat ≤ 0xff then ('x', 2) else if c.toNat ≤ 0xffff then ('u', 4) else ('U', 8)
  '\\' :: mark :: List.replicate (width - digits.length) '0' ++ digits

def doubleQuotedChar (c : Char) : List Char :=
  if isPrintable c && !isBreak c && c != '"' && c != '\\' then [c]
  else
    match escapeLetters.find? (·.1 == c.toNat) with
    | some (_, letter) => ['\\', letter]
    | none => escapeCode c

def doubleQuoted (s : List Char) : List Char :=
  '"' :: s.flatMap doubleQuotedChar ++ ['"']

/-- A text between single quotes, each quote in it doubled. -/
def singleQuoted (s : List Char) : List Char :=
  '\'' :: s.flatMap (fun c => if c == '\'' then ['\'', '\''] else [c]) ++ ['\'']

/-- What follows the sign of a block scalar: its indentation if its first line does not show it, and
what becomes of the breaks at its end. -/
def literalHints (s : List Char) : List Char :=
  let shown := s.head?.any fun c => c == ' ' || isBreak c
  let ending := s.reverse
  let chomping :=
    if !holds isBreak ending.head? then ['-']
    else if (ending.drop 1).isEmpty || holds isBreak (ending.drop 1).head? then ['+']
    else []
  (if shown then ['2'] else []) ++ chomping

def endLine : List Line → List Line
  | [] => [['\n']]
  | [l] => if holds isBreak l.getLast? then [l] else [l ++ ['\n']]
  | l :: ls => l :: endLine ls

/-- The lines of a text; those after the first are two places further in. -/
def textLines (s : String) : List Line :=
  let cs := s.toList
  let tail (ls : List Line) : List Line :=
    match ls with
    | [] => []
    | l :: ls => l :: ls.map inward
  match styleOf s with
  | .plain => [cs ++ ['\n']]
  | .singleQuoted => endLine (tail (linesOf (singleQuoted cs)))
  | .doubleQuoted => [doubleQuoted cs ++ ['\n']]
  | .literal => ('|' :: literalHints cs ++ ['\n']) :: endLine ((linesOf cs).map inward)

def keyText (s : String) : List Char :=
  let cs := s.toList
  match styleOf s with
  | .plain => cs
  | .singleQuoted => if cs.any isBreak then doubleQuoted cs else singleQuoted cs
  | _ => doubleQuoted cs

/-! ## Documents -/

def doubleLayout : Layout where
  positional := withinPlaces
  wholeTail := ".0"
  plusSign := ""
  infinity := ".inf"
  negativeInfinity := "-.inf"
  nan := ".nan"

def numberText : Json.Number → String
  | .whole n => toString n
  | .double x => doubleLayout.text x

/-- Whether a value is a block, which begins on a line of its own under a key. -/
def isBlock : Json → Bool
  | .array items => !items.isEmpty
  | .object fields => !fields.isEmpty
  | _ => false

/-- Puts a mark before the first of several lines. -/
def mark (sign : List Char) : List Line → List Line
  | [] => []
  | l :: ls => (sign ++ l) :: ls

/-- The lines of a block as an item of a list. -/
def asItem : List Line → List Line
  | [] => []
  | l :: ls => ('-' :: ' ' :: l) :: ls.map inward

mutual

def lines : Json → List Line
  | .null => ["null\n".toList]
  | .bool b => [(if b then "true\n" else "false\n").toList]
  | .number n => [(numberText n).toList ++ ['\n']]
  | .string s => textLines s
  | .array items => if items.isEmpty then ["[]\n".toList] else itemLines items
  | .object fields => if fields.isEmpty then ["\x7b\x7d\n".toList] else fieldLines fields

/-- The lines of the items of a list. -/
def itemLines : List Json → List Line
  | [] => []
  | v :: vs => (if isBlock v then asItem (lines v) else mark ['-', ' '] (lines v)) ++ itemLines vs

/-- The lines of the fields of a map. -/
def fieldLines : List (String × Json) → List Line
  | [] => []
  | (name, v) :: fs =>
    let key := keyText name ++ [':']
    let field := match v with
      | .array (_ :: _) => (key ++ ['\n']) :: lines v
      | .object (_ :: _) => (key ++ ['\n']) :: (lines v).map inward
      | _ => mark (key ++ [' ']) (lines v)
    field ++ fieldLines fs

end

def document (v : Json) : String :=
  String.ofList (lines v).flatten

end PlainSteps.Yaml
