import PlainSteps.Json.Reader
import PlainSteps.Yaml.Cursor

/-!
# Scalars as they are written

* `plainScalar?` : a scalar without marks. It ends at a comment, before a colon that ends a word, and
  at the first line that is not indented enough.
* `quotedScalar?` : a scalar between single or double quotes, the latter with escapes.
* `blockScalar?` : the lines under a `|` or `>`, taken as they are or folded.
* `Gap` : blanks and line breaks between two words. Without a break the blanks stay; one break
  becomes a space, and of several all but the first stay.
-/

namespace PlainSteps.Yaml

/-! ## Gaps -/

/-- The blanks and line breaks between two words. -/
structure Gap where
  /-- The blanks, as long as there is no break. -/
  blanks : List Char := []
  /-- Whether a line has ended. -/
  broken : Bool := false
  /-- The first break. -/
  first : List Char := []
  /-- The other breaks. -/
  others : List Char := []

def Gap.text (g : Gap) : List Char :=
  if !g.broken then g.blanks
  else if g.first.head? == some '\n' then (if g.others.isEmpty then [' '] else g.others)
  else g.first ++ g.others

/-- Reads on to the end of a gap. A tab before the column `indent` of a later line is refused. -/
def gapRest? (indent : Int) : Nat → Gap → Cursor → Option (Gap × Cursor)
  | 0, g, c => some (g, c)
  | fuel + 1, g, c =>
    match c.head? with
    | none => some (g, c)
    | some d =>
      if isGap d then
        if !g.broken then gapRest? indent fuel { g with blanks := g.blanks ++ [d] } (c.skip 1)
        else if d == '\t' && (c.column : Int) < indent then none
        else gapRest? indent fuel g (c.skip 1)
      else if isBreak d then
        let g : Gap :=
          if !g.broken then { broken := true, first := c.breakText }
          else { g with others := g.others ++ c.breakText }
        gapRest? indent fuel g c.skipBreak
      else some (g, c)

def gap? (indent : Int) (g : Gap) (c : Cursor) : Option (Gap × Cursor) :=
  gapRest? indent c.rest.length g c

/-! ## Plain scalars -/

/-- A character that has a meaning in a flow collection. -/
def isFlowMark (c : Char) : Bool :=
  c == ',' || c == '[' || c == ']' || c == '{' || c == '}'

/-- The characters of one word of a plain scalar. In a flow collection a colon before a mark is
refused. -/
def plainWord? (flow : Bool) : List Char → Option (List Char)
  | [] => some []
  | c :: s =>
    let next := s.head?
    if endsWord (some c) then some []
    else if flow && c == ':' && holds (fun d => isFlowMark d || d == '?') next then none
    else if c == ':' && endsWord next || flow && isFlowMark c then some []
    else (plainWord? flow s).map (c :: ·)

/-- A scalar: its text, whether a line has ended after it, and where the text goes on. -/
structure Scanned where
  text : List Char
  broken : Bool
  cursor : Cursor

/-- The words of a plain scalar from here on. -/
def plainRest? (flow : Bool) (indent : Int) : Nat → List Char → Gap → Cursor → Option Scanned
  | 0, _, _, _ => none
  | fuel + 1, done, g, c =>
    if c.atDocumentMark || c.head? == some '#' then some ⟨done, g.broken, c⟩
    else
      match plainWord? flow c.rest with
      | none => none
      | some word =>
        let done := if word.isEmpty then done else done ++ g.text ++ word
        let broken := word.isEmpty && g.broken
        let c := c.skip word.length
        if !holds (fun d => isGap d || isBreak d) c.head? then some ⟨done, broken, c⟩
        else
          match gap? indent {} c with
          | none => none
          | some (g, c) =>
            if !flow && (c.column : Int) < indent then some ⟨done, g.broken, c⟩
            else plainRest? flow indent fuel done g c

/-- A plain scalar; later lines begin at the column `indent` or after it. -/
def plainScalar? (flow : Bool) (indent : Int) (c : Cursor) : Option Scanned :=
  plainRest? flow indent (c.rest.length + 1) [] {} c

/-! ## Quoted scalars -/

/-- What a letter stands for after a backslash: a character, or a code of so many digits. -/
def escape? (c : Char) : Option (Char ⊕ Nat) :=
  match c with
  | '0' => some (.inl (Char.ofNat 0))
  | 'a' => some (.inl (Char.ofNat 7))
  | 'b' => some (.inl (Char.ofNat 8))
  | 't' | '\t' => some (.inl '\t')
  | 'n' => some (.inl '\n')
  | 'v' => some (.inl (Char.ofNat 11))
  | 'f' => some (.inl (Char.ofNat 12))
  | 'r' => some (.inl '\r')
  | 'e' => some (.inl (Char.ofNat 27))
  | ' ' => some (.inl ' ')
  | '"' => some (.inl '"')
  | '/' => some (.inl '/')
  | '\\' => some (.inl '\\')
  | 'N' => some (.inl '\u0085')
  | '_' => some (.inl '\u00a0')
  | 'L' => some (.inl '\u2028')
  | 'P' => some (.inl '\u2029')
  | 'x' => some (.inr 2)
  | 'u' => some (.inr 4)
  | 'U' => some (.inr 8)
  | _ => none

def hexValue? (s : List Char) : Option Nat :=
  s.foldlM (fun n c => (Json.hexDigit? c).map (16 * n + ·)) 0

def charOf? (n : Nat) : Option Char :=
  if h : n.isValidChar then some (Char.ofNatAux n h) else none

/-- The character of an escape after its backslash, and how many characters it takes. -/
def escaped? : List Char → Option (Char × Nat)
  | [] => none
  | c :: s =>
    match escape? c with
    | none => none
    | some (.inl d) => some (d, 1)
    | some (.inr digits) =>
      let code := s.take digits
      if code.length < digits then none
      else ((hexValue? code).bind charOf?).map (·, digits + 1)

/-- One word of a quoted scalar; it is broken if an escaped line break ends it. -/
def quotedWord? (quote : Char) : Nat → Cursor → Option Scanned
  | 0, _ => none
  | fuel + 1, c =>
    let more (d : Char) (n : Nat) : Option Scanned :=
      (quotedWord? quote fuel (c.skip n)).map fun w => { w with text := d :: w.text }
    match c.rest with
    | [] => some ⟨[], false, c⟩
    | d :: s =>
      if endsWord (some d) then some ⟨[], false, c⟩
      else if quote == '\'' && d == '\'' && s.head? == some '\'' then more '\'' 2
      else if d == quote then some ⟨[], false, c⟩
      else if quote == '"' && d == '\\' then
        if holds isBreak s.head? then some ⟨[], true, (c.skip 1).skipBreak⟩
        else
          match escaped? s with
          | none => none
          | some (e, n) => more e (n + 1)
      else more d 1

/-- The words of a quoted scalar up to its closing quote. -/
def quotedRest? (quote : Char) : Nat → List Char → Cursor → Option Scanned
  | 0, _, _ => none
  | fuel + 1, done, c =>
    if c.atDocumentMark || c.rest.isEmpty then none
    else
      match quotedWord? quote (c.rest.length + 1) c with
      | none => none
      | some w =>
        if w.cursor.head? == some quote then some ⟨done ++ w.text, false, w.cursor.skip 1⟩
        else
          match gap? 0 { broken := w.broken } w.cursor with
          | none => none
          | some (g, c) => quotedRest? quote fuel (done ++ w.text ++ g.text) c

/-- A quoted scalar from its opening quote. -/
def quotedScalar? (quote : Char) (c : Cursor) : Option Scanned :=
  quotedRest? quote (c.rest.length + 1) [] (c.skip 1)

/-! ## Block scalars -/

/-- What becomes of the line breaks at the end of a block scalar. -/
inductive Chomping where
  | strip
  | clip
  | keep
  deriving DecidableEq

/-- The sign for a kind of chomping. -/
def chomping? : Char → Option Chomping
  | '-' => some .strip
  | '+' => some .keep
  | _ => none

/-- An indentation given by a digit; zero is refused. -/
def increment? (c : Char) : Option (Option Nat) :=
  if c == '0' then none
  else if '1' ≤ c && c ≤ '9' then some (some (c.toNat - '0'.toNat))
  else some none

/-- The header of a block scalar after its sign: chomping and indentation in either order. -/
def blockHeader? (c : Cursor) : Option (Chomping × Option Nat × Cursor) :=
  match c.head?.bind chomping? with
  | some chomping =>
    let c := c.skip 1
    match c.head? with
    | none => some (chomping, none, c)
    | some d =>
      match increment? d with
      | none => none
      | some none => some (chomping, none, c)
      | some (some n) => some (chomping, some n, c.skip 1)
  | none =>
    match c.head? with
    | none => some (.clip, none, c)
    | some d =>
      match increment? d with
      | none => none
      | some none => some (.clip, none, c)
      | some (some n) =>
        let c := c.skip 1
        match c.head?.bind chomping? with
        | some chomping => some (chomping, some n, c.skip 1)
        | none => some (.clip, some n, c)

/-- Past blanks and a comment to the end of the line, which nothing else may precede. -/
def lineEnd? (c : Cursor) : Option Cursor :=
  let c := (c.skipWhile isGap).skipComment
  if endsLine c.head? then some c.skipBreak else none

/-- Empty lines and indentation before a line of a block scalar: the breaks, the widest indentation
seen, and where the line begins. Without a known indentation all spaces belong to it. -/
def blockBreaks? (indent : Option Nat) :
    Nat → Nat → List Char → Cursor → Option (List Char × Nat × Cursor)
  | 0, _, _, _ => none
  | fuel + 1, widest, done, c =>
    let room := match indent with
      | none => c.rest.length
      | some n => n - c.column
    let spaces := (c.rest.takeWhile (· == ' ')).length
    let c := c.skip (min room spaces)
    let widest := max widest c.column
    let inside := match indent with
      | none => true
      | some n => c.column < n
    if inside && c.head? == some '\t' then none
    else if holds isBreak c.head? then
      blockBreaks? indent fuel widest (done ++ c.breakText) c.skipBreak
    else some (done, widest, c)

/-- A line of a block scalar and all after it. The breaks before it are the one that ended the last
line and those of empty lines; `led` tells whether the last line began with a blank. -/
def blockLines? (literal : Bool) (indent : Nat) :
    Nat → List Char → List Char → List Char → Bool → Cursor →
      Option (List Char × List Char × List Char × Cursor)
  | 0, _, _, _, _, _ => none
  | fuel + 1, done, first, others, led, c =>
    if c.column != indent || c.rest.isEmpty then some (done, first, others, c)
    else
      let leads := holds isGap c.head?
      let folds := !literal && first.head? == some '\n' && !led && !leads
      let joint := if folds then (if others.isEmpty then [' '] else []) else first
      let (line, c) := c.takeWhile fun d => !isBreak d
      let first := c.breakText
      let next := c.skipBreak
      match blockBreaks? (some indent) (next.rest.length + 1) 0 [] next with
      | none => none
      | some (breaks, _, next) =>
        blockLines? literal indent fuel (done ++ joint ++ others ++ line) first breaks leads next

/-- A block scalar from its sign. The enclosing block is indented by `outer`, or by -1 at the
outside. -/
def blockScalar? (literal : Bool) (outer : Int) (c : Cursor) : Option Scanned := do
  let (chomping, increment, c) ← blockHeader? (c.skip 1)
  let c ← lineEnd? c
  let given := increment.map fun n => (max outer 0).toNat + n
  let (breaks, widest, c) ← blockBreaks? given (c.rest.length + 1) 0 [] c
  let indent := given.getD (max widest (max (outer + 1) 1).toNat)
  let (text, first, others, c) ←
    blockLines? literal indent (c.rest.length + 1) [] [] breaks false c
  let text := if chomping == .strip then text else text ++ first
  let text := if chomping == .keep then text ++ others else text
  some ⟨text, false, c⟩

end PlainSteps.Yaml
