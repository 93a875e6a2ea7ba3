import PlainSteps.Yaml
import PlainSteps.Yaml.Node

/-!
# Reading YAML

* `plainValue?` : what a plain scalar stands for: null, a truth value, a number, or else a text.
* `Links.node?` : binds aliases to the nodes they stand for. A name may be bound again, and the last
  node bound under its number counts, also for aliases before it.
* `valueWithin?` : the value of a node. Lists and maps nest at most `maxNesting` deep, aliases
  counted as what they stand for, and an alias may be read at most `maxRepetition` times for each
  part of the document.
* `Yaml.read?` : the value of the only document of a text.
-/

namespace PlainSteps.Yaml

open PlainSteps.Number
open PlainSteps.Text

/-! ## Plain scalars -/

/-- A text without a sign in front of it, if there is one. -/
def withoutPlus (s : List Char) : List Char :=
  if s.head? == some '+' then s.drop 1 else s

def isSigned (s : List Char) : Bool :=
  s.head? == some '+' || s.head? == some '-'

/-- A number with a superfluous zero in front, which is a text. -/
def isPadded (s : List Char) : Bool :=
  let digits := if isSigned s then s.drop 1 else s
  1 < digits.length && digits.head? == some '0' && digits.all isAsciiDigit

/-- The value of a digit in a radix of at most 16. -/
def digitIn? (radix : Nat) (c : Char) : Option Nat :=
  (Json.hexDigit? c).bind fun d => if d < radix then some d else none

/-- The value of digits in a radix. -/
def digitsIn? (radix : Nat) (s : List Char) : Option Nat :=
  if s.isEmpty then none else s.foldlM (fun n c => (digitIn? radix c).map (radix * n + ·)) 0

/-- The radixes with a sign of their own. -/
def radixes : List (String × Nat) := [("0x", 16), ("0o", 8), ("0b", 2)]

/-- The natural number below a bound that a scalar is. -/
def natural? (bound : Nat) (s : List Char) : Option Nat :=
  let below (n : Option Nat) : Option Nat := n.bind fun n => if n < bound then some n else none
  let u := withoutPlus s
  let inRadix (r : String × Nat) : Option Nat :=
    if startsWith r.1.toList u then below (digitsIn? r.2 (u.drop 2)) else none
  let signedRadix (r : String × Nat) : Bool := startsWith r.1.toList u && isSigned (u.drop 2)
  if radixes.any signedRadix then none
  else
    match radixes.findSome? inRadix with
    | some n => some n
    | none => if isSigned u || isPadded s then none else below (digitsIn? 10 u)

/-- The integer that a scalar with a minus sign is, from minus the bound on; the sign may also be a
plus in decimal notation. -/
def negative? (bound : Nat) (s : List Char) : Option Int :=
  let within (n : Option Nat) : Option Int :=
    n.bind fun n => if n ≤ bound then some (-(n : Int)) else none
  let inRadix (r : String × Nat) : Option Int :=
    if startsWith ('-' :: r.1.toList) s then within (digitsIn? r.2 (s.drop 3)) else none
  match radixes.findSome? inRadix with
  | some n => some n
  | none =>
    if isPadded s then none
    else if s.head? == some '-' then within (digitsIn? 10 (s.drop 1))
    else none

/-- The digits of a decimal fraction and what follows them. -/
def mantissa? (s : List Char) : Option (List Char × List Char × List Char) :=
  let whole := s.takeWhile isAsciiDigit
  let rest := s.dropWhile isAsciiDigit
  let fraction := if rest.head? == some '.' then (rest.drop 1).takeWhile isAsciiDigit else []
  let rest := if rest.head? == some '.' then (rest.drop 1).dropWhile isAsciiDigit else rest
  if whole.isEmpty && fraction.isEmpty then none else some (whole, fraction, rest)

/-- The exponent after its letter, which is zero if nothing is left. -/
def exponent? : List Char → Option Int
  | [] => some 0
  | c :: s =>
    if c != 'e' && c != 'E' then none
    else
      let digits := if isSigned s then s.drop 1 else s
      if digits.isEmpty || !digits.all isAsciiDigit then none
      else
        let n : Int := digitsValue digits
        some (if s.head? == some '-' then -n else n)

/-- The finite double that a text in decimal notation is nearest to. -/
def decimal? (s : List Char) : Option Binary64 := do
  let digits := if isSigned s then s.drop 1 else s
  let (whole, fraction, rest) ← mantissa? digits
  let e ← exponent? rest
  let x := ofParts whole fraction e
  if x.isInfinite then none else some (x.signed (s.head? == some '-'))

def double? (s : List Char) : Option Binary64 :=
  let u := withoutPlus s
  let spelled (forms : List String) (t : List Char) : Bool := forms.any (·.toList == t)
  if s.head? == some '+' && isSigned u then none
  else if spelled [".inf", ".Inf", ".INF"] u then some Binary64.infinity
  else if spelled ["-.inf", "-.Inf", "-.INF"] s then some Binary64.infinity.negate
  else if spelled [".nan", ".NaN", ".NAN"] s then some Binary64.nan
  else decimal? u

/-- Whether a scalar is an integer of 64 bits, a longer one of 128 bits, or none. -/
inductive Whole where
  | short (n : Int)
  | long
  | none

def whole (s : List Char) : Whole :=
  match natural? (Nat.pow 2 64) s with
  | some n => .short n
  | none =>
    match negative? (Nat.pow 2 63) s with
    | some n => .short n
    | none =>
      if (natural? (Nat.pow 2 128) s).isSome || (negative? (Nat.pow 2 127) s).isSome then .long else .none

def isNull (s : String) : Bool :=
  ["null", "Null", "NULL", "~"].contains s

/-- The truth value that a scalar is. -/
def bool? (s : String) : Option Bool :=
  if ["true", "True", "TRUE"].contains s then some true
  else if ["false", "False", "FALSE"].contains s then some false
  else none

/-- What a plain scalar stands for; an integer of more than 64 bits is refused. -/
def plainValue? (s : String) : Option Yaml :=
  if s.isEmpty || isNull s then some .null
  else
    match bool? s with
    | some b => some (.bool b)
    | none =>
      match whole s.toList with
      | .short n => some (.number (.whole n))
      | .long => none
      | .none =>
        match if isPadded s.toList then none else double? s.toList with
        | some x => some (.number (.double x))
        | none => some (.string s)

/-! ## Tagged scalars -/

/-- What a scalar stands for. A tag of the common schema decides on the type, a tag of the author's
is refused, and any other makes it a text. -/
def scalarValue? (tag : Option String) (text : String) (plain : Bool) : Option Yaml :=
  match tag with
  | none => if plain then plainValue? text else some (.string text)
  | some tag =>
    if tag.toList.head? == some '!' then none
    else if tag == "tag:yaml.org,2002:bool" then (bool? text).map .bool
    else if tag == "tag:yaml.org,2002:int" then
      match whole text.toList with
      | .short n => some (.number (.whole n))
      | _ => none
    else if tag == "tag:yaml.org,2002:float" then
      (double? text.toList).map fun x => .number (.double x)
    else if tag == "tag:yaml.org,2002:null" then if isNull text then some .null else none
    else some (.string text)

/-- Whether a list or map may have a tag. -/
def allowsTag (tag : Option String) : Bool :=
  match tag with
  | none => true
  | some tag => tag.toList.head? != some '!'

/-! ## Aliases -/

/-- A node bound under a number. -/
structure Bound where
  slot : Nat
  /-- How many parts of the document come before the node. -/
  start : Nat
  node : Node Nat

/-- The names bound so far, each with a number, and the nodes bound under numbers. -/
structure Links where
  names : List (String × Nat) := []
  nodes : List Bound := []
  /-- How many parts have been read: one for each scalar and alias, two for each list and map. -/
  parts : Nat := 0

namespace Links

/-- Binds a name to the next number, which is how many names there are. -/
def bind (l : Links) (anchor : Option String) : Option Nat × Links :=
  match anchor with
  | none => (none, l)
  | some a =>
    let slot := l.names.length
    (some slot, { l with names := (a, slot) :: l.names.filter (·.1 != a) })

/-- Keeps a node under its number, if it has one. -/
def keep (l : Links) (slot : Option Nat) (start : Nat) (n : Node Nat) : Links :=
  match slot with
  | none => l
  | some i => { l with nodes := ⟨i, start, n⟩ :: l.nodes }

/-- The node bound under a number; of several the one that begins last. -/
def find? (l : Links) (slot : Nat) : Option (Node Nat) :=
  let later (best : Option Bound) (b : Bound) : Option Bound :=
    match best with
    | none => some b
    | some a => if a.start < b.start then some b else some a
  (((l.nodes.filter (·.slot == slot)).foldl later none).map (·.node))

mutual

/-- The node with its aliases by number. A name must be bound before its alias. -/
def node? : Node String → Links → Option (Node Nat × Links)
  | .alias name, l =>
    (l.names.find? (·.1 == name)).map fun b => (.alias b.2, { l with parts := l.parts + 1 })
  | .scalar p text plain, l =>
    let start := l.parts
    let (slot, l) := l.bind p.anchor
    let n := .scalar p text plain
    some (n, { l.keep slot start n with parts := start + 1 })
  | .list p items, l =>
    let start := l.parts
    let (slot, l) := l.bind p.anchor
    match items? items { l with parts := start + 2 } with
    | none => none
    | some (items, l) => some (.list p items, l.keep slot start (.list p items))
  | .map p fields, l =>
    let start := l.parts
    let (slot, l) := l.bind p.anchor
    match fields? fields { l with parts := start + 2 } with
    | none => none
    | some (fields, l) => some (.map p fields, l.keep slot start (.map p fields))

/-- Several nodes with their aliases by number. -/
def items? : List (Node String) → Links → Option (List (Node Nat) × Links)
  | [], l => some ([], l)
  | n :: ns, l =>
    match node? n l with
    | none => none
    | some (n, l) => (items? ns l).map fun r => (n :: r.1, r.2)

/-- Several fields with their aliases by number. -/
def fields? : List (Node String × Node String) → Links →
    Option (List (Node Nat × Node Nat) × Links)
  | [], l => some ([], l)
  | (k, v) :: fs, l =>
    match node? k l with
    | none => none
    | some (k, l) =>
      match node? v l with
      | none => none
      | some (v, l) => (fields? fs l).map fun r => ((k, v) :: r.1, r.2)

end

end Links

/-! ## Values -/

/-- How deep lists and maps may nest. -/
def maxNesting : Nat := 128

/-- How many aliases may be read for each part of a document. -/
def maxRepetition : Nat := 100

/-- The node that is meant, and the aliases left to read. -/
def Links.target? (l : Links) (left : Nat) : Node Nat → Option (Node Nat × Nat)
  | .alias slot => if left = 0 then none else (l.find? slot).map (·, left - 1)
  | n => some (n, left)

/-- The values of several nodes, one after the other. -/
def valuesBy? (value : Nat → Node Nat → Option (Yaml × Nat)) :
    Nat → List (Node Nat) → Option (List Yaml × Nat)
  | left, [] => some ([], left)
  | left, n :: ns =>
    match value left n with
    | none => none
    | some (v, left) => (valuesBy? value left ns).map fun r => (v :: r.1, r.2)

/-- The values of several fields, one after the other. -/
def fieldValuesBy? (value : Nat → Node Nat → Option (Yaml × Nat)) :
    Nat → List (Node Nat × Node Nat) → Option (List (Yaml × Yaml) × Nat)
  | left, [] => some ([], left)
  | left, (k, v) :: fs =>
    match value left k with
    | none => none
    | some (k, left) =>
      match value left v with
      | none => none
      | some (v, left) => (fieldValuesBy? value left fs).map fun r => ((k, v) :: r.1, r.2)

/-- The value of a node in which lists and maps nest at most `depth` deep, and the aliases left to
read. -/
def valueWithin? (l : Links) : Nat → Nat → Node Nat → Option (Yaml × Nat)
  | depth, left, n =>
    match l.target? left n with
    | none | some (.alias _, _) => none
    | some (.scalar p text plain, left) => (scalarValue? p.tag text plain).map (·, left)
    | some (.list p items, left) =>
      match depth with
      | 0 => none
      | depth + 1 =>
        if allowsTag p.tag then
          (valuesBy? (valueWithin? l depth) left items).map fun r => (.list r.1, r.2)
        else none
    | some (.map p fields, left) =>
      match depth with
      | 0 => none
      | depth + 1 =>
        if allowsTag p.tag then
          (fieldValuesBy? (valueWithin? l depth) left fields).map fun r => (.map r.1, r.2)
        else none

/-- The value of the only document of a text. A text without a document is null. -/
def read? (text : String) : Option Yaml := do
  let root ← (tokens? text.toList).bind root?
  let (n, l) ← Links.node? root {}
  let (v, _) ← valueWithin? l maxNesting (maxRepetition * l.parts) n
  some v

end PlainSteps.Yaml
