import PlainSteps.Json
import PlainSteps.Text.Escape

/-!
# JSON text

* `Json.compact` : on one line without blanks.
* `Json.pretty` : a line for each item, two blanks of indentation for each level; empty arrays and
  objects stay on one line.
-/

namespace PlainSteps.Json

open PlainSteps.Number

/-- Doubles in JSON text: what is not finite is null. -/
def doubleLayout : Layout where
  positional := withinPlaces
  wholeTail := ".0"
  plusSign := "+"
  infinity := "null"
  negativeInfinity := "null"
  nan := "null"

/-- A control character by its code of four hexadecimal digits. -/
def controlCode (c : Char) : List Char :=
  let digits := Text.hexText c.toNat
  '\\' :: 'u' :: List.replicate (4 - digits.length) '0' ++ digits

def stringChar (c : Char) : List Char :=
  if c = '"' then ['\\', '"']
  else if c = '\\' then ['\\', '\\']
  else if c = '\n' then ['\\', 'n']
  else if c = '\r' then ['\\', 'r']
  else if c = '\t' then ['\\', 't']
  else if c = Char.ofNat 8 then ['\\', 'b']
  else if c = Char.ofNat 12 then ['\\', 'f']
  else if c.toNat < 32 then controlCode c
  else [c]

def quotedText (s : String) : String :=
  String.ofList ('"' :: s.toList.flatMap stringChar ++ ['"'])

def Number.text : Json.Number → String
  | .whole n => toString n
  | .double x => doubleLayout.text x

/-- Text with separators: what goes between two items, and what goes after a field's name. -/
def joined (separator : String) : List String → String
  | [] => ""
  | [s] => s
  | s :: ss => s ++ separator ++ joined separator ss

mutual

/-- The text of a value on one line. -/
def compact : Json → String
  | null => "null"
  | bool b => if b then "true" else "false"
  | number n => n.text
  | string s => quotedText s
  | array items => "[" ++ joined "," (compactItems items) ++ "]"
  | object fields => "\x7b" ++ joined "," (compactFields fields) ++ "\x7d"

def compactItems : List Json → List String
  | [] => []
  | v :: vs => compact v :: compactItems vs

def compactFields : List (String × Json) → List String
  | [] => []
  | (name, v) :: fs => (quotedText name ++ ":" ++ compact v) :: compactFields fs

end

/-- The blanks before a line at a level. -/
def indentation (level : Nat) : String :=
  String.ofList (List.replicate (2 * level) ' ')

/-- Lines of items between brackets, at a level. -/
def block (level : Nat) (opening closing : String) (items : List String) : String :=
  if items.isEmpty then opening ++ closing
  else
    opening ++ "\n" ++ joined ",\n" (items.map (indentation (level + 1) ++ ·)) ++ "\n" ++
      indentation level ++ closing

mutual

/-- The text of a value over several lines, at a level. -/
def prettyAt (level : Nat) : Json → String
  | null => "null"
  | bool b => if b then "true" else "false"
  | number n => n.text
  | string s => quotedText s
  | array items => block level "[" "]" (prettyItems (level + 1) items)
  | object fields => block level "\x7b" "\x7d" (prettyFields (level + 1) fields)

def prettyItems (level : Nat) : List Json → List String
  | [] => []
  | v :: vs => prettyAt level v :: prettyItems level vs

def prettyFields (level : Nat) : List (String × Json) → List String
  | [] => []
  | (name, v) :: fs => (quotedText name ++ ": " ++ prettyAt level v) :: prettyFields level fs

end

/-- The text of a value over several lines. -/
def pretty (v : Json) : String :=
  prettyAt 0 v

end PlainSteps.Json
