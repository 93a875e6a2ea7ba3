import PlainSteps.Json
import PlainSteps.Number.Read

/-!
# Reading JSON

* `Json.readValue?` : the value that a text begins with, and what follows it.
* `Json.read?` : a text that is one value.

Values nest at most `maxNesting` deep. A double is read from its leading digits as a whole number
of 64 bits, scaled by a power of ten; digits beyond are left out, and a number beyond all doubles is
an error.
-/

namespace PlainSteps.Json

open Text

/-- How deep arrays and objects may nest. -/
def maxNesting : Nat := 127

def isSpace (c : Char) : Bool :=
  c == ' ' || c == '\t' || c == '\n' || c == '\r'

def skipSpace (s : List Char) : List Char :=
  s.dropWhile isSpace

/-! ## Strings -/

def hexDigit? (c : Char) : Option Nat :=
  if '0' ≤ c && c ≤ '9' then some (c.toNat - '0'.toNat)
  else if 'a' ≤ c && c ≤ 'f' then some (c.toNat - 'a'.toNat + 10)
  else if 'A' ≤ c && c ≤ 'F' then some (c.toNat - 'A'.toNat + 10)
  else none

def hexFour? (a b c d : Char) : Option Nat := do
  some (4096 * (← hexDigit? a) + 256 * (← hexDigit? b) + 16 * (← hexDigit? c) + (← hexDigit? d))

/-- The character that a letter stands for after a backslash. -/
def escapeLetter? (c : Char) : Option Char :=
  match c with
  | '"' => some '"'
  | '\\' => some '\\'
  | '/' => some '/'
  | 'b' => some (Char.ofNat 8)
  | 'f' => some (Char.ofNat 12)
  | 'n' => some '\n'
  | 'r' => some '\r'
  | 't' => some '\t'
  | _ => none

/-- A code unit that is the first of a pair. -/
def isLeading (n : Nat) : Bool := 0xD800 ≤ n && n ≤ 0xDBFF

/-- A code unit that is the second of a pair. -/
def isTrailing (n : Nat) : Bool := 0xDC00 ≤ n && n ≤ 0xDFFF

/-- The text of a string after its opening quote, with the characters read before it in reverse,
and what follows the closing quote. -/
def stringRest? (done : List Char) : List Char → Option (String × List Char)
  | [] => none
  | '"' :: s => some (String.ofList done.reverse, s)
  | '\\' :: 'u' :: a :: b :: c :: d :: s =>
    match hexFour? a b c d with
    | none => none
    | some n =>
      if isLeading n then
        match s with
        | '\\' :: 'u' :: e :: f :: g :: h :: s =>
          match hexFour? e f g h with
          | none => none
          | some m =>
            if isTrailing m then
              stringRest? (Char.ofNat (0x10000 + (n - 0xD800) * 0x400 + (m - 0xDC00)) :: done) s
            else none
        | _ => none
      else if isTrailing n then none
      else stringRest? (Char.ofNat n :: done) s
  | '\\' :: c :: s =>
    match escapeLetter? c with
    | some e => stringRest? (e :: done) s
    | none => none
  | c :: s => if c.toNat < 32 || c == '\\' then none else stringRest? (c :: done) s

/-! ## Numbers -/

/-- The largest whole number of 64 bits. -/
def maxWhole : Nat := Nat.pow 2 64 - 1

/-- The leading digits as a whole number of 64 bits, after the number `n` of those read before;
how many were taken, and the digits left. -/
def takeWhole : Nat → Nat → List Char → Nat × Nat × List Char
  | n, count, [] => (n, count, [])
  | n, count, c :: s =>
    if isAsciiDigit c then
      let m := 10 * n + (c.toNat - '0'.toNat)
      if m ≤ maxWhole then takeWhole m (count + 1) s else (n, count, c :: s)
    else (n, count, c :: s)

/-- The largest exponent that is read; beyond it only the sign counts. -/
def maxExponent : Nat := Nat.pow 2 31 - 1

/-- Divides or multiplies by powers of ten of at most 308; `none` when there is no double so
large. -/
def scaled? : Nat → Float → Int → Option Float
  | 0, _, _ => none
  | fuel + 1, x, e =>
    if e.natAbs ≤ 308 then
      let power := (Number.Binary64.ofDecimal 1 1 e.natAbs).toFloat
      if 0 ≤ e then
        let y := x * power
        if y.isInf then none else some y
      else some (x / power)
    else if x == 0 then some x
    else if 0 ≤ e then none
    else scaled? fuel (x / (Number.Binary64.ofDecimal 1 1 308).toFloat) (e + 308)

/-- The double of a whole number and a power of ten. -/
def doubleOf? (negative : Bool) (n : Nat) (exponent : Int) : Option Json :=
  (scaled? (exponent.natAbs / 308 + 2) (Number.Binary64.nearest n 1).toFloat exponent).map fun x =>
    number (.double ((Number.Binary64.ofFloat x).signed negative))

/-- The exponent part of a number whose digits are `n * 10 ^ base`, after its letter. -/
def exponentRest? (negative : Bool) (n : Nat) (base : Int) (s : List Char) :
    Option (Json × List Char) :=
  let down := s.head? == some '-'
  let s := if s.head? == some '-' || s.head? == some '+' then s.drop 1 else s
  let digits := s.takeWhile isAsciiDigit
  let rest := s.dropWhile isAsciiDigit
  if digits.isEmpty then none
  else
    let e := Number.digitsValue digits
    if maxExponent < e then
      if n != 0 && !down then none
      else some (number (.double (Number.Binary64.zero.signed negative)), rest)
    else (doubleOf? negative n (if down then base - e else base + e)).map (·, rest)

/-- What follows the digits of a number: an exponent or the end of the number. -/
def doubleRest? (negative : Bool) (n : Nat) (base : Int) (s : List Char) :
    Option (Json × List Char) :=
  match s with
  | c :: t =>
    if c == 'e' || c == 'E' then exponentRest? negative n base t
    else (doubleOf? negative n base).map (·, s)
  | [] => (doubleOf? negative n base).map (·, s)

/-- The fraction of a number, after its point. -/
def fractionRest? (negative : Bool) (n : Nat) (base : Int) (s : List Char) :
    Option (Json × List Char) :=
  let (m, count, rest) := takeWhole n 0 s
  let full := (rest.head?.map isAsciiDigit).getD false
  if count = 0 && !full then none
  else doubleRest? negative m (base - count) (rest.dropWhile isAsciiDigit)

def numberRest? (negative : Bool) (s : List Char) : Option (Json × List Char) :=
  match s with
  | [] => none
  | c :: t =>
    if !isAsciiDigit c then none
    else if c == '0' && (t.head?.map isAsciiDigit).getD false then none
    else
      let (n, _, rest) := takeWhole 0 0 s
      let more := rest.takeWhile isAsciiDigit
      let rest := rest.dropWhile isAsciiDigit
      match rest with
      | '.' :: t => fractionRest? negative n more.length t
      | _ =>
        let isExponent := rest.head? == some 'e' || rest.head? == some 'E'
        if isExponent || !more.isEmpty then doubleRest? negative n more.length rest
        else if !negative then some (number (.whole n), rest)
        else if 0 < n && n ≤ Nat.pow 2 63 then some (number (.whole (-(n : Int))), rest)
        else some (number (.double (Number.Binary64.nearest n 1).negate), rest)

/-! ## Values -/

/-- The rest of a text after a word. -/
def afterWord? (w : String) (s : List Char) : Option (List Char) :=
  if startsWith w.toList s then some (s.drop w.length) else none

mutual

/-- The value that a text begins with after white space. The first argument bounds the length of
the text, the second the nesting. -/
def valueRest? : Nat → Nat → List Char → Option (Json × List Char)
  | 0, _, _ => none
  | fuel + 1, depth, s =>
    match skipSpace s with
    | [] => none
    | 'n' :: t => (afterWord? "ull" t).map (null, ·)
    | 't' :: t => (afterWord? "rue" t).map (bool true, ·)
    | 'f' :: t => (afterWord? "alse" t).map (bool false, ·)
    | '"' :: t => (stringRest? [] t).map fun r => (string r.1, r.2)
    | '[' :: t =>
      match depth with
      | 0 => none
      | depth + 1 =>
        match skipSpace t with
        | ']' :: u => some (array [], u)
        | u => (itemsRest? fuel depth u).map fun r => (array r.1, r.2)
    | '{' :: t =>
      match depth with
      | 0 => none
      | depth + 1 =>
        match skipSpace t with
        | '}' :: u => some (object [], u)
        | u => (fieldsRest? fuel depth u).map fun r => (object r.1, r.2)
    | '-' :: t => numberRest? true t
    | t => numberRest? false t

/-- The items of an array up to its closing bracket, at least one. -/
def itemsRest? : Nat → Nat → List Char → Option (List Json × List Char)
  | 0, _, _ => none
  | fuel + 1, depth, s =>
    match valueRest? fuel depth s with
    | none => none
    | some (v, t) =>
      match skipSpace t with
      | ']' :: u => some ([v], u)
      | ',' :: u => (itemsRest? fuel depth u).map fun r => (v :: r.1, r.2)
      | _ => none

/-- The fields of an object up to its closing brace, at least one. -/
def fieldsRest? : Nat → Nat → List Char → Option (List (String × Json) × List Char)
  | 0, _, _ => none
  | fuel + 1, depth, s =>
    match skipSpace s with
    | '"' :: t =>
      match stringRest? [] t with
      | none => none
      | some (name, t) =>
        match skipSpace t with
        | ':' :: t =>
          match valueRest? fuel depth t with
          | none => none
          | some (v, t) =>
            match skipSpace t with
            | '}' :: u => some ([(name, v)], u)
            | ',' :: u => (fieldsRest? fuel depth u).map fun r => ((name, v) :: r.1, r.2)
            | _ => none
        | _ => none
    | _ => none

end

/-- The value that a text begins with, and what follows it. -/
def readValue? (s : String) : Option (Json × List Char) :=
  let cs := s.toList
  valueRest? (2 * cs.length + 2) maxNesting cs

def read? (s : String) : Option Json :=
  match readValue? s with
  | some (v, rest) => if (skipSpace rest).isEmpty then some v else none
  | none => none

end PlainSteps.Json
