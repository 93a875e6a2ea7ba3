import PlainSteps.Toml
import PlainSteps.Number.Layout
import PlainSteps.Text.Escape
import PlainSteps.Text.Ascii

/-!
# TOML text

* `Toml.document?` : a table as a document. The values of a table come first, each on its line, and
  then its tables under their headers, with an empty line before each header but the first. There
  is none if an integer is too large for the format.
* `Toml.textValue` : a text in the plainest notation that can hold it.

Arrays of two or more values have a line for each.
-/

namespace PlainSteps.Toml

open Text

/-! ## Texts -/

/-- A control character, which only an escape can write. Tabs and line ends are not counted. -/
def isControl (c : Char) : Bool :=
  c != '\t' && c != '\n' && (c.toNat < 32 || c.toNat == 127)

/-- The longest run of a character in a text, after a run of length `run` and a longest of
`longest`. -/
def longestRun (c : Char) (run longest : Nat) : List Char → Nat
  | [] => longest
  | d :: s =>
    let run := if d == c then run + 1 else 0
    longestRun c run (max run longest) s

/-- The longest run of a character in a text. -/
def runOf (c : Char) (s : List Char) : Nat :=
  longestRun c 0 0 s

/-- A code point in four hexadecimal capitals. -/
def capitalCode (c : Char) : List Char :=
  let digits := (hexText c.toNat).map upper
  '\\' :: 'u' :: List.replicate (4 - digits.length) '0' ++ digits

def basicChar (c : Char) : List Char :=
  if c = '"' then ['\\', '"']
  else if c = '\\' then ['\\', '\\']
  else if c = '\t' then ['\\', 't']
  else if c = '\n' then ['\\', 'n']
  else if c = '\r' then ['\\', 'r']
  else if c = Char.ofNat 8 then ['\\', 'b']
  else if c = Char.ofNat 12 then ['\\', 'f']
  else if isControl c then capitalCode c
  else [c]

/-- One character of a basic text over several lines, after a run of `quotes` quotes: every third
quote of a run is escaped. -/
def longBasicChars (quotes : Nat) : List Char → List Char
  | [] => []
  | c :: s =>
    if c == '"' then
      if quotes == 2 then '\\' :: '"' :: longBasicChars 0 s else '"' :: longBasicChars (quotes + 1) s
    else if c == '\n' then '\n' :: longBasicChars 0 s
    else basicChar c ++ longBasicChars 0 s

/-- Several lines between three quotes; a text with line ends begins on a line of its own. -/
def longText (quotes : List Char) (body : List Char) (broken : Bool) : List Char :=
  quotes ++ (if broken then ['\n'] else []) ++ body ++ quotes

/-- The text in the plainest notation that can hold it: basic without escapes, literal, over several
lines, and failing all these with escapes. -/
def textChars (s : List Char) : List Char :=
  let broken := s.contains '\n'
  let controls := s.any isControl
  let slashes := s.contains '\\'
  let doubles := runOf '"' s
  let singles := runOf '\'' s
  let longBasic := longText ['"', '"', '"'] (longBasicChars 0 s) broken
  if !controls && !slashes && doubles == 0 && !broken then '"' :: s.flatMap basicChar ++ ['"']
  else if !controls && singles == 0 && !broken then '\'' :: s ++ ['\'']
  else if !controls && !slashes && doubles ≤ 2 then longBasic
  else if !controls && singles ≤ 2 then longText ['\'', '\'', '\''] s broken
  else if broken then longBasic
  else '"' :: s.flatMap basicChar ++ ['"']

def textValue (s : String) : String :=
  String.ofList (textChars s.toList)

/-! ## Values -/

def floatLayout : Number.Layout where
  positional _ := true
  wholeTail := ".0"
  plusSign := ""
  infinity := "inf"
  negativeInfinity := "-inf"
  nan := "nan"

/-- The text of a double; NaN keeps its sign. -/
def floatText (x : Number.Binary64) : String :=
  if x.isNaN && x.isNegative then "-nan" else floatLayout.text x

/-- Whether a text can be a bare key. -/
def isBare (s : List Char) : Bool :=
  !s.isEmpty && s.all fun c => isAsciiKey c
where
  /-- A character of a bare key. -/
  isAsciiKey (c : Char) : Bool :=
    ('a' ≤ c && c ≤ 'z') || ('A' ≤ c && c ≤ 'Z') || ('0' ≤ c && c ≤ '9') || c == '-' || c == '_'

/-- A key, between quotes where it has to be. -/
def keyText (name : String) : String :=
  if isBare name.toList then name else textValue name

/-- Items of an array: on one line up to one item, else a line for each. -/
def arrayText (items : List String) : String :=
  match items with
  | [] => "[]"
  | [v] => "[" ++ v ++ "]"
  | _ => "[\n" ++ String.join (items.map fun v => "    " ++ v ++ ",\n") ++ "]"

mutual

/-- The text of a value within a line; `none` for an integer too large. -/
def valueText? : Toml → Option String
  | string s => some (textValue s)
  | integer n => if isInteger n then some (toString n) else none
  | float x => some (floatText x)
  | boolean b => some (if b then "true" else "false")
  | moment text => some text
  | array items => (itemTexts? items).map arrayText
  | table fields => (pairTexts? fields).map fun ps =>
    if ps.isEmpty then "\x7b\x7d" else "\x7b " ++ ", ".intercalate ps ++ " \x7d"

def itemTexts? : List Toml → Option (List String)
  | [] => some []
  | v :: vs => do some ((← valueText? v) :: (← itemTexts? vs))

/-- The texts of several fields of an inline table. -/
def pairTexts? : List (String × Toml) → Option (List String)
  | [] => some []
  | (name, v) :: fs => do some ((keyText name ++ " = " ++ (← valueText? v)) :: (← pairTexts? fs))

end

/-! ## Documents -/

mutual

/-- The lines of a table's own values. -/
def valueLines? : List (String × Toml) → Option String
  | [] => some ""
  | (_, table _) :: fs => valueLines? fs
  | (name, v) :: fs => do some (keyText name ++ " = " ++ (← valueText? v) ++ "\n" ++ (← valueLines? fs))

end

mutual

/-- The sections of the tables among the fields of the table at a path, one text for each. -/
def sections? (path : List String) : List (String × Toml) → Option (List String)
  | [] => some []
  | (name, table fields) :: fs => do
    let here := path ++ [name]
    let own ← valueLines? fields
    let header := "[" ++ ".".intercalate (here.map keyText) ++ "]\n" ++ own
    some (header :: (← sections? here fields) ++ (← sections? path fs))
  | _ :: fs => sections? path fs

end

def document? : Toml → Option String
  | table fields => do
    let own ← valueLines? fields
    let sections ← sections? [] fields
    some ("\n".intercalate (if own.isEmpty then sections else own :: sections))
  | _ => none

end PlainSteps.Toml
