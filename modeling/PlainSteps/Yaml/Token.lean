import PlainSteps.Number.Read
import PlainSteps.Yaml.Scalar

/-!
# Tokens

* `Token` : the pieces a YAML text is made of. Keys, and the blocks that indentation forms, have
  tokens of their own, which stand for no characters.
* `directive?`, `name?`, `tag?` : a directive, the name of an anchor or alias, and a tag, as they are
  written.
-/

namespace PlainSteps.Yaml

open Text

/-- A piece of a YAML text. -/
inductive Token where
  | streamEnd
  | version (major minor : Nat)
  | tagRule (handle expansion : String)
  | documentStart
  | documentEnd
  | blockListStart
  | blockMapStart
  | blockEnd
  | flowListStart
  | flowListEnd
  | flowMapStart
  | flowMapEnd
  | blockEntry
  | flowEntry
  | key
  | value
  | alias (name : String)
  | anchor (name : String)
  | tag (handle suffix : String)
  | scalar (text : String) (plain : Bool)
  deriving DecidableEq, Repr

def isNameChar (c : Char) : Bool :=
  isAsciiAlphanumeric c || c == '-' || c == '_'

/-! ## Anchors and aliases -/

/-- The name of an anchor or an alias after its sign. Only some marks may follow it directly. -/
def name? (c : Cursor) : Option (String × Cursor) :=
  let (name, next) := (c.skip 1).takeWhile isNameChar
  let follows := endsWord next.head? ||
    holds (fun d => ['?', ':', ',', ']', '}', '%', '@', '`'].contains d) next.head?
  if name.isEmpty || !follows then none else some (String.ofList name, next)

/-! ## Tags -/

/-- A character of a tag; between angle brackets and in directives a few more are allowed. -/
def isTagChar (wide : Bool) (c : Char) : Bool :=
  isNameChar c ||
    [';', '/', '?', ':', '@', '&', '=', '+', '$', '.', '%', '!', '~', '*', '\'', '(', ')'].contains c ||
    wide && [',', '[', ']'].contains c

/-- A byte written as a per cent sign and two hexadecimal digits. -/
def percentByte? : List Char → Option Nat
  | '%' :: a :: b :: _ => do some (16 * (← Json.hexDigit? a) + (← Json.hexDigit? b))
  | _ => none

/-- How many bytes a character takes by its first byte. -/
def byteCount? (first : Nat) : Option Nat :=
  if first < 0x80 then some 1
  else if first / 0x20 == 6 then some 2
  else if first / 0x10 == 14 then some 3
  else if first / 0x08 == 30 then some 4
  else none

/-- The value of the further bytes of a character, six bits in each. -/
def furtherBytes? : Nat → Nat → List Char → Option Nat
  | 0, n, _ => some n
  | count + 1, n, s =>
    match percentByte? s with
    | none => none
    | some b => if b / 0x40 == 2 then furtherBytes? count (0x40 * n + b % 0x40) (s.drop 3) else none

/-- The character written as bytes, and how many bytes it takes. A code that no character has
becomes a replacement character. -/
def percentChar? (s : List Char) : Option (Char × Nat) := do
  let first ← percentByte? s
  let count ← byteCount? first
  let lead := if count == 1 then first else first % Nat.pow 2 (7 - count)
  let code ← furtherBytes? (count - 1) lead (s.drop 3)
  some ((charOf? code).getD '\ufffd', count)

/-- The characters of a tag from here on. -/
def tagChars? (wide : Bool) : Nat → Cursor → Option (List Char × Cursor)
  | 0, _ => none
  | fuel + 1, c =>
    match c.head? with
    | none => some ([], c)
    | some d =>
      if !isTagChar wide d then some ([], c)
      else if d == '%' then
        match percentChar? c.rest with
        | none => none
        | some (e, count) =>
          (tagChars? wide fuel (c.skip (3 * count))).map fun r => (e :: r.1, r.2)
      else (tagChars? wide fuel (c.skip 1)).map fun r => (d :: r.1, r.2)

/-- The rest of a tag whose beginning has been read already; it must not be empty as a whole. -/
def tagRest? (wide : Bool) (begun : List Char) (c : Cursor) : Option (String × Cursor) :=
  match tagChars? wide (c.rest.length + 1) c with
  | none => none
  | some (s, next) =>
    if begun.isEmpty && s.isEmpty then none else some (String.ofList (begun.drop 1 ++ s), next)

/-- An exclamation mark, a name, and perhaps another mark. -/
def tagHandle? (c : Cursor) : Option (List Char × Cursor) :=
  if c.head? != some '!' then none
  else
    let (name, next) := (c.skip 1).takeWhile isNameChar
    if next.head? == some '!' then some ('!' :: name ++ ['!'], next.skip 1)
    else some ('!' :: name, next)

/-- Whether a handle is closed by a second mark. -/
def isClosed (handle : List Char) : Bool :=
  2 ≤ handle.length && handle.getLast? == some '!'

/-- A tag: its handle, its suffix, and where the text goes on. -/
def tag? (flow : Bool) (c : Cursor) : Option (Token × Cursor) := do
  let (handle, suffix, next) ←
    if c.ahead? 1 == some '<' then
      match tagRest? true [] (c.skip 2) with
      | none => none
      | some (suffix, next) =>
        if next.head? == some '>' then some ("", suffix, next.skip 1) else none
    else
      match tagHandle? c with
      | none => none
      | some (handle, next) =>
        if isClosed handle then
          (tagRest? false [] next).map fun r => (String.ofList handle, r.1, r.2)
        else
          (tagRest? false handle next).map fun r =>
            if r.1.isEmpty then ("", "!", r.2) else ("!", r.1, r.2)
  if endsWord next.head? || flow && next.head? == some ',' then some (.tag handle suffix, next)
  else none

/-! ## Directives -/

/-- A number of a version: at most nine digits. -/
def versionNumber? (c : Cursor) : Option (Nat × Cursor) :=
  let (digits, next) := c.takeWhile isAsciiDigit
  if digits.isEmpty || 9 < digits.length then none else some (Number.digitsValue digits, next)

def version? (c : Cursor) : Option (Token × Cursor) := do
  let (major, c) ← versionNumber? (c.skipWhile isGap)
  if c.head? != some '.' then none
  else
    let (minor, c) ← versionNumber? (c.skip 1)
    some (.version major minor, c)

/-- The handle and its expansion in a directive. -/
def tagRule? (c : Cursor) : Option (Token × Cursor) := do
  let (handle, c) ← tagHandle? (c.skipWhile isGap)
  if !(isClosed handle || handle == ['!']) || !holds isGap c.head? then none
  else
    let (expansion, c) ← tagRest? true [] (c.skipWhile isGap)
    if endsWord c.head? then some (.tagRule (String.ofList handle) expansion, c) else none

/-- A directive with the rest of its line. -/
def directive? (c : Cursor) : Option (Token × Cursor) := do
  let (name, c) := (c.skip 1).takeWhile isNameChar
  if name.isEmpty || !endsWord c.head? then none
  else
    let (token, c) ←
      match String.ofList name with
      | "YAML" => version? c
      | "TAG" => tagRule? c
      | _ => none
    let c ← lineEnd? c
    some (token, c)

end PlainSteps.Yaml
