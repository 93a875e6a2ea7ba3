import PlainSteps.Yaml.Token

/-!
# The tokens of a text

* `tokens?` : the tokens of a text, of which the last is the end of the stream.
* `Outline` : where the reader of tokens stands: the open blocks, and the places that may turn out to
  begin a key once its colon is read.

A token may be inserted before others that were read earlier: the colon of a key shows that the key
began a while ago, and perhaps a map with it.
-/

namespace PlainSteps.Yaml

/-- A place where a key may have begun. -/
structure KeyPlace where
  /-- Whether nothing but a key may stand here. -/
  required : Bool
  /-- The number of its token. -/
  number : Nat
  index : Nat
  line : Nat
  column : Nat

/-- Where the reader of tokens stands. -/
structure Outline where
  cursor : Cursor
  /-- The tokens read so far, the last one first. -/
  read : List Token := []
  /-- How many tokens have been read. -/
  count : Nat := 0
  /-- The column of the innermost block, or -1. -/
  indent : Int := -1
  /-- The columns of the blocks around it. -/
  outer : List Int := []
  /-- How many flow collections are open. -/
  flow : Nat := 0
  /-- Whether a key may begin here. -/
  keyAllowed : Bool := true
  /-- The place where a key may have begun, in the innermost flow collection. -/
  keyPlace : Option KeyPlace := none
  /-- The same for the collections around it. -/
  outerPlaces : List (Option KeyPlace) := []

namespace Outline

def inFlow (o : Outline) : Bool := o.flow != 0

def add (o : Outline) (t : Token) : Outline :=
  { o with read := t :: o.read, count := o.count + 1 }

/-- Inserts a token before the one with a number. -/
def insert (o : Outline) (number : Nat) (t : Token) : Outline :=
  let n := o.count - number
  { o with read := o.read.take n ++ t :: o.read.drop n, count := o.count + 1 }

def moved (o : Outline) (c : Cursor) : Outline :=
  { o with cursor := c }

/-! ## Keys -/

/-- A key ends on the line it begins on and has at most 1024 characters. -/
def isStale (c : Cursor) (k : KeyPlace) : Bool :=
  k.line < c.line || k.index + 1024 < c.index

/-- Gives up places where no key can have begun any more. -/
def dropStale? (o : Outline) : Option Outline :=
  let stale (k : Option KeyPlace) : Bool := (k.map (isStale o.cursor)).getD false
  let faulty (k : Option KeyPlace) : Bool := stale k && (k.map (·.required)).getD false
  if faulty o.keyPlace || o.outerPlaces.any faulty then none
  else
    let live (k : Option KeyPlace) : Option KeyPlace := if stale k then none else k
    some { o with keyPlace := live o.keyPlace, outerPlaces := o.outerPlaces.map live }

/-- Gives up the place where a key may have begun, which must not be required. -/
def dropKey? (o : Outline) : Option Outline :=
  match o.keyPlace with
  | some k => if k.required then none else some { o with keyPlace := none }
  | none => some o

/-- Notes that a key may begin here. -/
def noteKey? (o : Outline) : Option Outline :=
  if !o.keyAllowed then some o
  else
    o.dropKey?.map fun o =>
      { o with
        keyPlace := some {
          required := !o.inFlow && o.indent == (o.cursor.column : Int)
          number := o.count
          index := o.cursor.index
          line := o.cursor.line
          column := o.cursor.column } }

/-! ## Blocks -/

/-- Opens a block at a column, unless one is open there. -/
def openBlock (o : Outline) (column : Nat) (t : Token) (number : Option Nat) : Outline :=
  if o.inFlow || (column : Int) ≤ o.indent then o
  else
    let o := match number with
      | none => o.add t
      | some n => o.insert n t
    { o with indent := column, outer := o.indent :: o.outer }

/-- Closes the blocks to the right of a column. -/
def closeBlocks (column : Int) : List Int → Outline → Outline
  | [], o => o
  | i :: outer, o =>
    if column < o.indent then
      closeBlocks column outer { o.add .blockEnd with indent := i, outer := outer }
    else o

/-- Closes the blocks to the right of a column; within a flow collection there are none. -/
def close (o : Outline) (column : Int) : Outline :=
  if o.inFlow then o else closeBlocks column o.outer o

/-! ## Single tokens -/

def mark (o : Outline) (n : Nat) (t : Token) : Outline :=
  (o.add t).moved (o.cursor.skip n)

/-- Directives and the lines that divide documents close all blocks. -/
def outside? (o : Outline) : Option Outline :=
  (o.close (-1)).dropKey?.map fun o => { o with keyAllowed := false }

def finish? (o : Outline) : Option Outline :=
  let c := o.cursor
  let c := if c.column == 0 then c else { c with column := 0, line := c.line + 1 }
  (o.moved c).outside?.map (·.add .streamEnd)

def openFlow? (o : Outline) (t : Token) : Option Outline :=
  o.noteKey?.map fun o =>
    { o.mark 1 t with
      keyPlace := none, outerPlaces := o.keyPlace :: o.outerPlaces, flow := o.flow + 1
      keyAllowed := true }

def closeFlow? (o : Outline) (t : Token) : Option Outline :=
  o.dropKey?.map fun o =>
    let o := match o.outerPlaces with
      | [] => o
      | k :: ks => { o with keyPlace := k, outerPlaces := ks, flow := o.flow - 1 }
    { o.mark 1 t with keyAllowed := false }

def flowEntry? (o : Outline) : Option Outline :=
  o.dropKey?.map fun o => { o.mark 1 .flowEntry with keyAllowed := true }

/-- The hyphen before an item of a list. -/
def blockEntry? (o : Outline) : Option Outline :=
  if !o.inFlow && !o.keyAllowed then none
  else
    (o.openBlock o.cursor.column .blockListStart none).dropKey?.map fun o =>
      { o.mark 1 .blockEntry with keyAllowed := true }

def key? (o : Outline) : Option Outline :=
  if !o.inFlow && !o.keyAllowed then none
  else
    (o.openBlock o.cursor.column .blockMapStart none).dropKey?.map fun o =>
      { o.mark 1 .key with keyAllowed := !o.inFlow }

def value? (o : Outline) : Option Outline :=
  match o.keyPlace with
  | some k =>
    let o := (o.insert k.number .key).openBlock k.column .blockMapStart (some k.number)
    some { o.mark 1 .value with keyPlace := none, keyAllowed := false }
  | none =>
    if !o.inFlow && !o.keyAllowed then none
    else
      let o := o.openBlock o.cursor.column .blockMapStart none
      some { o.mark 1 .value with keyAllowed := !o.inFlow }

/-- A token that may begin a key. -/
def content? (o : Outline) (read : Cursor → Option (Token × Cursor)) : Option Outline := do
  let o ← o.noteKey?
  let (t, c) ← read o.cursor
  some { (o.add t).moved c with keyAllowed := false }

/-- A scalar that may begin a key. Where a line has ended after it, a key may begin again. -/
def scalar? (o : Outline) (plain : Bool) (read : Cursor → Option Scanned) : Option Outline := do
  let o ← o.noteKey?
  let s ← read o.cursor
  some { (o.add (.scalar (String.ofList s.text) plain)).moved s.cursor with keyAllowed := s.broken }

/-- A scalar of whole lines, which begins no key. -/
def block? (o : Outline) (literal : Bool) : Option Outline := do
  let o ← o.dropKey?
  let s ← blockScalar? literal o.indent o.cursor
  some { (o.add (.scalar (String.ofList s.text) false)).moved s.cursor with keyAllowed := true }

/-! ## The next token -/

/-- Past blanks, comments and line breaks. Tabs do not count as blanks where a key may begin. -/
def skipBetween : Nat → Outline → Outline
  | 0, o => o
  | fuel + 1, o =>
    let c := o.cursor
    let c := if c.index == 0 && c.head? == some '\ufeff' then c.skip 1 else c
    let c := c.skipWhile fun d => d == ' ' || d == '\t' && (o.inFlow || !o.keyAllowed)
    let c := c.skipComment
    if holds isBreak c.head? then
      skipBetween fuel { o.moved c.skipBreak with keyAllowed := o.keyAllowed || !o.inFlow }
    else o.moved c

/-- Whether a plain scalar may begin here. -/
def beginsPlain (flow : Bool) (c : Cursor) : Bool :=
  match c.head? with
  | none => false
  | some d =>
    let next := c.ahead? 1
    let marks := ['-', '?', ':', ',', '[', ']', '{', '}', '#', '&', '*', '!', '|', '>', '\'', '"',
      '%', '@', '`']
    !(endsWord (some d) || marks.contains d) || d == '-' && !holds isGap next ||
      !flow && (d == '?' || d == ':') && !endsWord next

def readToken? (o : Outline) : Option Outline :=
  let c := o.cursor
  let next := c.ahead? 1
  match c.head? with
  | none => o.finish?
  | some d =>
    if c.column == 0 && d == '%' then
      o.outside?.bind fun o => (directive? o.cursor).map fun r => (o.add r.1).moved r.2
    else if c.column == 0 && c.atTriple '-' then o.outside?.map (·.mark 3 .documentStart)
    else if c.column == 0 && c.atTriple '.' then o.outside?.map (·.mark 3 .documentEnd)
    else if d == '[' then o.openFlow? .flowListStart
    else if d == '{' then o.openFlow? .flowMapStart
    else if d == ']' then o.closeFlow? .flowListEnd
    else if d == '}' then o.closeFlow? .flowMapEnd
    else if d == ',' then o.flowEntry?
    else if d == '-' && endsWord next then o.blockEntry?
    else if d == '?' && (o.inFlow || endsWord next) then o.key?
    else if d == ':' && (o.inFlow || endsWord next) then o.value?
    else if d == '*' then o.content? fun c => (name? c).map fun r => (.alias r.1, r.2)
    else if d == '&' then o.content? fun c => (name? c).map fun r => (.anchor r.1, r.2)
    else if d == '!' then o.content? (tag? o.inFlow)
    else if d == '|' && !o.inFlow then o.block? true
    else if d == '>' && !o.inFlow then o.block? false
    else if d == '\'' || d == '"' then o.scalar? false (quotedScalar? d)
    else if beginsPlain o.inFlow c then o.scalar? true (plainScalar? o.inFlow (o.indent + 1))
    else none

def fetch? (o : Outline) : Option Outline := do
  let o ← (skipBetween (o.cursor.rest.length + 1) o).dropStale?
  (o.close o.cursor.column).readToken?

/-- The tokens from here on, after those read so far. -/
def tokensFrom? : Nat → Outline → Option (List Token)
  | 0, _ => none
  | fuel + 1, o =>
    match o.fetch? with
    | none => none
    | some o =>
      if o.read.head? == some .streamEnd then some o.read.reverse else tokensFrom? fuel o

end Outline

/-- A character that may occur in a text. -/
def isTextChar (c : Char) : Bool :=
  let n := c.toNat
  n == 0x09 || n == 0x0A || n == 0x0D || n == 0x85 || 0x20 ≤ n && n ≤ 0x7E ||
    0xA0 ≤ n && n ≤ 0xD7FF || 0xE000 ≤ n && n ≤ 0xFFFD || 0x10000 ≤ n

/-- The tokens of a text, which may begin with a byte order mark. -/
def tokens? (text : List Char) : Option (List Token) :=
  let text := if text.head? == some '\ufeff' then text.drop 1 else text
  if text.all isTextChar then
    Outline.tokensFrom? (text.length + 2) { cursor := .start text }
  else none

end PlainSteps.Yaml
