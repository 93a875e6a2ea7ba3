import PlainSteps.Toml
import PlainSteps.Number.Read

/-!
# Reading TOML

* `Toml.read?` : the table that a document stands for.
* `Toml.valueRest?` : the value that a text begins with, and what follows it.
* `Section` and `openTable?`, `openItem?`, `assign?` : how headers and keys build the table. A table
  is defined once: a header does not open it a second time, and dotted keys do not add to a table
  that has a header.
-/

namespace PlainSteps.Toml

open Text

/-- How deep arrays and inline tables may nest, and how many parts a key may have. -/
def maxNesting : Nat := 79

/-! ## Blanks, comments and line ends -/

def isGap (c : Char) : Bool := c == ' ' || c == '\t'

def skipGap (s : List Char) : List Char := s.dropWhile isGap

/-- A character that may stand in a comment or in a text on one line. -/
def isShown (c : Char) : Bool :=
  c == '\t' || (32 ≤ c.toNat && c.toNat != 127)

def lineEnd? : List Char → Option (List Char)
  | '\n' :: s => some s
  | '\r' :: '\n' :: s => some s
  | _ => none

/-- The text after a comment, if there is one. -/
def skipComment : List Char → List Char
  | '#' :: s => s.dropWhile isShown
  | s => s

/-- The text after what may end a line: blanks, a comment, and the line end or the end of the
text. -/
def restOfLine? (s : List Char) : Option (List Char) :=
  match skipComment (skipGap s) with
  | [] => some []
  | t => lineEnd? t

/-- The text after blanks, comments and line ends. The first argument bounds the lines. -/
def skipLines : Nat → List Char → List Char
  | 0, s => s
  | fuel + 1, s =>
    let t := skipComment (skipGap s)
    match lineEnd? t with
    | some u => skipLines fuel u
    | none => t

/-! ## Texts -/

def hexDigit? (c : Char) : Option Nat :=
  if '0' ≤ c && c ≤ '9' then some (c.toNat - '0'.toNat)
  else if 'a' ≤ c && c ≤ 'f' then some (c.toNat - 'a'.toNat + 10)
  else if 'A' ≤ c && c ≤ 'F' then some (c.toNat - 'A'.toNat + 10)
  else none

def hexValue? : Nat → List Char → Option Nat
  | n, [] => some n
  | n, c :: s => do hexValue? (16 * n + (← hexDigit? c)) s

/-- A character by its code point, given in `count` digits. -/
def codePoint? (count : Nat) (s : List Char) : Option (Char × List Char) := do
  let digits := s.take count
  if digits.length != count then none
  else
    let n ← hexValue? 0 digits
    if n < 0xD800 || (0xE000 ≤ n && n ≤ 0x10FFFF) then some (Char.ofNat n, s.drop count) else none

/-- The character that an escape stands for, after the backslash. -/
def escape? : List Char → Option (Char × List Char)
  | 'b' :: s => some (Char.ofNat 8, s)
  | 't' :: s => some ('\t', s)
  | 'n' :: s => some ('\n', s)
  | 'f' :: s => some (Char.ofNat 12, s)
  | 'r' :: s => some ('\r', s)
  | '"' :: s => some ('"', s)
  | '\\' :: s => some ('\\', s)
  | 'u' :: s => codePoint? 4 s
  | 'U' :: s => codePoint? 8 s
  | _ => none

/-- A basic text on one line, after its opening quote. -/
def basicRest? : Nat → List Char → List Char → Option (List Char × List Char)
  | 0, _, _ => none
  | _ + 1, _, [] => none
  | _ + 1, done, '"' :: s => some (done.reverse, s)
  | fuel + 1, done, '\\' :: s => do
    let (c, t) ← escape? s
    basicRest? fuel (c :: done) t
  | fuel + 1, done, c :: s => if isShown c then basicRest? fuel (c :: done) s else none

/-- A literal text on one line, after its opening quote. -/
def literalRest? (s : List Char) : Option (List Char × List Char) :=
  let body := s.takeWhile fun c => isShown c && c != '\''
  match s.drop body.length with
  | '\'' :: t => some (body, t)
  | _ => none

/-- The text after a backslash at the end of a line: the blanks and line ends up to the next
character. -/
def foldedRest : Nat → List Char → List Char
  | 0, s => s
  | fuel + 1, s =>
    let t := skipGap s
    match lineEnd? t with
    | some u => foldedRest fuel u
    | none => t

/-- The closing quotes of a text over several lines: three, or up to two more that belong to the
text. -/
def closing? (quote : Char) (s : List Char) : Option (List Char × List Char) :=
  let run := (s.takeWhile (· == quote)).length
  if run < 3 then none
  else
    let extra := min (run - 3) 2
    some (List.replicate extra quote, s.drop (3 + extra))

/-- A basic text over several lines, after its opening quotes. -/
def longBasicRest? : Nat → List Char → List Char → Option (List Char × List Char)
  | 0, _, _ => none
  | _ + 1, _, [] => none
  | fuel + 1, done, c :: s =>
    match closing? '"' (c :: s) with
    | some (extra, t) => some (done.reverse ++ extra, t)
    | none =>
      if c == '\\' then
        match escape? s with
        | some (d, t) => longBasicRest? fuel (d :: done) t
        | none =>
          match lineEnd? (skipGap s) with
          | some t => longBasicRest? fuel done (foldedRest fuel t)
          | none => none
      else match lineEnd? (c :: s) with
        | some t => longBasicRest? fuel ('\n' :: done) t
        | none => if isShown c then longBasicRest? fuel (c :: done) s else none

/-- A literal text over several lines, after its opening quotes. -/
def longLiteralRest? : Nat → List Char → List Char → Option (List Char × List Char)
  | 0, _, _ => none
  | _ + 1, _, [] => none
  | fuel + 1, done, c :: s =>
    match closing? '\'' (c :: s) with
    | some (extra, t) => some (done.reverse ++ extra, t)
    | none =>
      match lineEnd? (c :: s) with
      | some t => longLiteralRest? fuel ('\n' :: done) t
      | none => if isShown c then longLiteralRest? fuel (c :: done) s else none

/-- The text after a line end at the start of a text over several lines. -/
def withoutFirstLineEnd (s : List Char) : List Char :=
  (lineEnd? s).getD s

/-- A text in any of the four notations. -/
def textRest? (s : List Char) : Option (List Char × List Char) :=
  let fuel := s.length + 1
  match s with
  | '"' :: '"' :: '"' :: t => longBasicRest? fuel [] (withoutFirstLineEnd t)
  | '"' :: t => basicRest? fuel [] t
  | '\'' :: '\'' :: '\'' :: t => longLiteralRest? fuel [] (withoutFirstLineEnd t)
  | '\'' :: t => literalRest? t
  | _ => none

/-! ## Keys -/

def isBareKey (c : Char) : Bool :=
  isAsciiAlphanumeric c || c == '-' || c == '_'

def keyPart? (s : List Char) : Option (String × List Char) :=
  match s with
  | '"' :: t => (basicRest? (t.length + 1) [] t).map fun r => (String.ofList r.1, r.2)
  | '\'' :: t => (literalRest? t).map fun r => (String.ofList r.1, r.2)
  | _ =>
    let part := s.takeWhile isBareKey
    if part.isEmpty then none else some (String.ofList part, s.drop part.length)

/-- A key with all its parts. The first argument bounds their number. -/
def keyRest? : Nat → List Char → Option (List String × List Char)
  | 0, _ => none
  | fuel + 1, s => do
    let (part, t) ← keyPart? (skipGap s)
    match skipGap t with
    | '.' :: u =>
      let (parts, v) ← keyRest? fuel u
      some (part :: parts, v)
    | u => some ([part], u)

/-- A key, with at most as many parts as tables may nest. -/
def key? (s : List Char) : Option (List String × List Char) :=
  keyRest? maxNesting s

/-! ## Numbers, dates and words -/

/-- Digits with single underscores between them, without the underscores. -/
def grouped? (isIn : Char → Bool) : List Char → Option (List Char)
  | [] => none
  | [c] => if isIn c then some [c] else none
  | c :: '_' :: s => if isIn c then (grouped? isIn s).map (c :: ·) else none
  | c :: s => if isIn c then (grouped? isIn s).map (c :: ·) else none

/-- The value of digits in a base. -/
def valueInBase (base : Nat) (digits : List Char) : Nat :=
  digits.foldl (fun n c => base * n + (hexDigit? c).getD 0) 0

def integer? (n : Int) : Option Toml :=
  if isInteger n then some (integer n) else none

/-- A number in base sixteen, eight or two, after its mark. -/
def marked? (base : Nat) (digits : List Char) : Option Toml := do
  let isIn c := match hexDigit? c with
    | some d => d < base
    | none => false
  integer? (valueInBase base (← grouped? isIn digits))

/-- The digits of a decimal whole number: no zero stands before another digit. -/
def wholeDigits? (s : List Char) : Option (List Char) := do
  let digits ← grouped? isAsciiDigit s
  match digits with
  | '0' :: _ :: _ => none
  | _ => some digits

/-- The exponent of a float, after its letter. -/
def exponent? (s : List Char) : Option Int := do
  let down := s.head? == some '-'
  let digits ← grouped? isAsciiDigit (if down || s.head? == some '+' then s.drop 1 else s)
  let n : Int := Number.digitsValue digits
  some (if down then -n else n)

/-- A float without its sign: digits with a fraction, an exponent, or both. A number beyond all
doubles is refused, unless it is negative. -/
def float? (negative : Bool) (s : List Char) : Option Toml := do
  let isLetter c := c == 'e' || c == 'E'
  let body := s.takeWhile (!isLetter ·)
  let whole ← wholeDigits? (body.takeWhile (· != '.'))
  let fraction ← match body.dropWhile (· != '.') with
    | [] => some []
    | _ :: t => grouped? isAsciiDigit t
  let exponent ← match s.dropWhile (!isLetter ·) with
    | [] => some 0
    | _ :: t => exponent? t
  let x := Number.ofParts whole fraction exponent
  if x.isInfinite && !negative then none else some (float (x.signed negative))

def two? : List Char → Option (Nat × List Char)
  | a :: b :: s =>
    if isAsciiDigit a && isAsciiDigit b then some (Number.digitsValue [a, b], s) else none
  | _ => none

/-- The number of days of a month. -/
def daysIn (year month : Nat) : Nat :=
  if month = 2 then
    if year % 4 = 0 && (year % 100 != 0 || year % 400 = 0) then 29 else 28
  else if [4, 6, 9, 11].contains month then 30 else 31

def dateRest? (s : List Char) : Option (List Char) := do
  let (century, s) ← two? s
  let (years, s) ← two? s
  match s with
  | '-' :: s =>
    let (month, s) ← two? s
    match s with
    | '-' :: s =>
      let (day, s) ← two? s
      if 1 ≤ month && month ≤ 12 && 1 ≤ day && day ≤ daysIn (100 * century + years) month then some s
      else none
    | _ => none
  | _ => none

def clockRest? (s : List Char) : Option (List Char) := do
  let (hour, s) ← two? s
  match s with
  | ':' :: s =>
    let (minute, s) ← two? s
    if hour ≤ 23 && minute ≤ 59 then some s else none
  | _ => none

def timeRest? (s : List Char) : Option (List Char) := do
  match ← clockRest? s with
  | ':' :: s =>
    let (second, s) ← two? s
    if 60 < second then none
    else match s with
      | '.' :: t =>
        let digits := t.takeWhile isAsciiDigit
        if digits.isEmpty then none else some (t.drop digits.length)
      | _ => some s
  | _ => none

/-- What follows the distance from universal time, if it is there. -/
def offsetRest? : List Char → Option (List Char)
  | c :: s =>
    if c == 'Z' || c == 'z' then some s
    else if c == '+' || c == '-' then clockRest? s
    else some (c :: s)
  | [] => some []

/-- What follows a date, a time, or both; `none` if the text is neither. -/
def momentRest? (s : List Char) : Option (List Char) :=
  match dateRest? s with
  | some t =>
    match t with
    | c :: u =>
      if c == 'T' || c == 't' || (c == ' ' && ((u.head?.map isAsciiDigit).getD false)) then
        (timeRest? u).bind offsetRest?
      else some t
    | [] => some []
  | none => timeRest? s

/-- Whether a text begins as a date or a time does. -/
def beginsMoment (s : List Char) : Bool :=
  let digits := (s.takeWhile isAsciiDigit).length
  let next := (s.drop digits).head?
  (digits == 4 && next == some '-') || (digits == 2 && next == some ':')

/-- A character of a number or of a word. -/
def isScalar (c : Char) : Bool :=
  isAsciiAlphanumeric c || c == '_' || c == '.' || c == '+' || c == '-'

/-- The value of a number or a word. -/
def scalar? (s : List Char) : Option Toml :=
  match s with
  | '0' :: 'x' :: t => marked? 16 t
  | '0' :: 'o' :: t => marked? 8 t
  | '0' :: 'b' :: t => marked? 2 t
  | _ =>
    let text := String.ofList s
    if text == "true" then some (boolean true)
    else if text == "false" then some (boolean false)
    else
      let negative := s.head? == some '-'
      let body := if negative || s.head? == some '+' then s.drop 1 else s
      let word := String.ofList body
      if word == "inf" then some (float (Number.Binary64.infinity.signed negative))
      else if word == "nan" then some (float (Number.Binary64.nan.signed negative))
      else if body.any fun c => c == '.' || c == 'e' || c == 'E' then float? negative body
      else do
        let n : Int := Number.digitsValue (← wholeDigits? body)
        integer? (if negative then -n else n)

/-! ## Tables -/

/-- How a table came to be. -/
inductive Origin where
  /-- By its own header, or as the document or an item of a list of tables. -/
  | header
  /-- On the way to the table of a header. -/
  | passed
  /-- By dotted keys. -/
  | dotted
  deriving DecidableEq, Repr

/-- A part of a document under construction. -/
inductive Part where
  | value (v : Toml)
  | table (origin : Origin) (fields : List (String × Part))
  | tables (items : List (List (String × Part)))
  deriving Inhabited

/-- The fields of a table under construction. -/
abbrev Fields := List (String × Part)

def Fields.get? (fields : Fields) (name : String) : Option Part :=
  (fields.find? (·.1 == name)).map (·.2)

/-- Puts a part under a name, in place of any there. -/
def Fields.put (fields : Fields) (name : String) (p : Part) : Fields :=
  if fields.any (·.1 == name) then fields.map fun f => if f.1 == name then (name, p) else f
  else fields ++ [(name, p)]

/-- Changes the table at a path, which is made on the way where it is missing. Dotted keys do not
pass through a table that has a header. -/
def changeAt (byDots : Bool) : List String → (Origin → Fields → Option Fields) → Origin → Fields →
    Option Fields
  | [], change, origin, fields => change origin fields
  | name :: path, change, _, fields =>
    match fields.get? name with
    | none => do
      let made := if byDots then Origin.dotted else .passed
      let inner ← changeAt byDots path change made []
      some (fields.put name (.table made inner))
    | some (.value _) => none
    | some (.table origin inner) =>
      if byDots && origin == .header then none
      else do
        let inner ← changeAt byDots path change origin inner
        some (fields.put name (.table origin inner))
    | some (.tables items) =>
      match items.getLast? with
      | none => none
      | some last => do
        let last ← changeAt byDots path change .header last
        some (fields.put name (.tables (items.dropLast ++ [last])))

def openTable? (path : List String) (document : Fields) : Option Fields :=
  match path.getLast? with
  | none => none
  | some name =>
    changeAt false path.dropLast (fun _ fields =>
      match fields.get? name with
      | none => some (fields.put name (.table .header []))
      | some (.table .passed inner) => some (fields.put name (.table .header inner))
      | some _ => none) .header document

/-- Opens the next item of the list of tables of a header. -/
def openItem? (path : List String) (document : Fields) : Option Fields :=
  match path.getLast? with
  | none => none
  | some name =>
    changeAt false path.dropLast (fun _ fields =>
      match fields.get? name with
      | none => some (fields.put name (.tables [[]]))
      | some (.tables items) => some (fields.put name (.tables (items ++ [[]])))
      | some _ => none) .header document

/-- Gives a key of an open table its value. -/
def assignIn? (key : List String) (v : Toml) (origin : Origin) (fields : Fields) : Option Fields :=
  match key.getLast? with
  | none => none
  | some name =>
    let inner := key.dropLast
    changeAt true inner (fun o fields =>
      if !inner.isEmpty && o != .dotted then none
      else if (fields.get? name).isSome then none
      else some (fields.put name (.value v))) origin fields

mutual

def Part.toToml : Part → Toml
  | .value v => v
  | .table _ fields => .table (fieldsToToml fields)
  | .tables items => .array (itemsToToml items)

def fieldsToToml : List (String × Part) → List (String × Toml)
  | [] => []
  | (name, p) :: rest => (name, p.toToml) :: fieldsToToml rest

/-- The values of a list of tables. -/
def itemsToToml : List (List (String × Part)) → List Toml
  | [] => []
  | fields :: rest => .table (fieldsToToml fields) :: itemsToToml rest

end

/-! ## Values -/

mutual

/-- The value that a text begins with. The first argument bounds the length of the text, the second
the nesting. -/
def valueRest? : Nat → Nat → List Char → Option (Toml × List Char)
  | 0, _, _ => none
  | fuel + 1, depth, s =>
    match s with
    | [] => none
    | '"' :: _ | '\'' :: _ => (textRest? s).map fun r => (string (String.ofList r.1), r.2)
    | '[' :: t =>
      match depth with
      | 0 => none
      | depth + 1 => (itemsRest? fuel depth t).map fun r => (array r.1, r.2)
    | '{' :: t =>
      match depth with
      | 0 => none
      | depth + 1 =>
        match skipGap t with
        | '}' :: u => some (table [], u)
        | u => (pairsRest? fuel depth [] u).map fun r => (table (fieldsToToml r.1), r.2)
    | _ =>
      if beginsMoment s then
        (momentRest? s).map fun rest =>
          (moment (String.ofList (s.take (s.length - rest.length))), rest)
      else
        let word := s.takeWhile isScalar
        (scalar? word).map (·, s.drop word.length)

/-- The items of an array up to its closing bracket; a comma may follow the last. -/
def itemsRest? : Nat → Nat → List Char → Option (List Toml × List Char)
  | 0, _, _ => none
  | fuel + 1, depth, s =>
    match skipLines fuel s with
    | ']' :: t => some ([], t)
    | t =>
      match valueRest? fuel depth t with
      | none => none
      | some (v, t) =>
        match skipLines fuel t with
        | ']' :: u => some ([v], u)
        | ',' :: u => (itemsRest? fuel depth u).map fun r => (v :: r.1, r.2)
        | _ => none

/-- The fields of an inline table up to its closing brace, at least one, added to those read
before. -/
def pairsRest? : Nat → Nat → Fields → List Char → Option (Fields × List Char)
  | 0, _, _, _ => none
  | fuel + 1, depth, fields, s =>
    match key? s with
    | some (key, '=' :: t) =>
      match valueRest? fuel depth (skipGap t) with
      | none => none
      | some (v, t) =>
        match assignIn? key v .header fields with
        | none => none
        | some fields =>
          match skipGap t with
          | '}' :: u => some (fields, u)
          | ',' :: u => pairsRest? fuel depth fields u
          | _ => none
    | _ => none

end

/-! ## Documents -/

/-- A document under construction, and the path of the table that is open. -/
structure Section where
  document : Fields
  path : List String

/-- Gives a key of the open table its value. -/
def Section.assign? (sec : Section) (key : List String) (v : Toml) : Option Section := do
  let document ← changeAt false sec.path (assignIn? key v) .header sec.document
  some { sec with document }

/-- The document after the lines of a text. -/
def linesRest? : Nat → Section → List Char → Option Section
  | 0, _, _ => none
  | fuel + 1, sec, s =>
    match skipLines fuel s with
    | [] => some sec
    | '[' :: '[' :: t => do
      match ← key? t with
      | (path, ']' :: ']' :: u) =>
        let document ← openItem? path sec.document
        linesRest? fuel ⟨document, path⟩ (← restOfLine? u)
      | _ => none
    | '[' :: t => do
      match ← key? t with
      | (path, ']' :: u) =>
        let document ← openTable? path sec.document
        linesRest? fuel ⟨document, path⟩ (← restOfLine? u)
      | _ => none
    | t => do
      match ← key? t with
      | (key, '=' :: u) =>
        let (v, u) ← valueRest? (2 * u.length + 2) maxNesting (skipGap u)
        linesRest? fuel (← sec.assign? key v) (← restOfLine? u)
      | _ => none

/-- A mark of the encoding at the start of a text. -/
def withoutMark : List Char → List Char
  | c :: s => if c == Char.ofNat 0xFEFF then s else c :: s
  | [] => []

/-- The table that a document stands for. -/
def read? (text : String) : Option Toml := do
  let s := withoutMark text.toList
  let sec ← linesRest? (s.length + 1) ⟨[], []⟩ s
  some (.table (fieldsToToml sec.document))

end PlainSteps.Toml
