import PlainSteps.Sentence.Grammar
import PlainSteps.Target

/-!
# Operands

* `quotedSpan?` : the text from an opening quotation mark at the start to the last mark that closes
  it. A value put into a sentence may hold the author's own marks, so the span is the outermost.
* `operand` : the target that a piece of a sentence names.
-/

namespace PlainSteps.Sentence

open Text

/-- The mark that closes a quotation opened by the given one. -/
def closingMark? (c : Char) : Option Char :=
  if c = '"' ∨ c = '\'' then some c
  else if c = '“' then some '”'
  else if c = '‘' then some '’'
  else none

/-- The text up to and with the last occurrence of a character. -/
def throughLast? (c : Char) (s : List Char) : Option (List Char) :=
  let kept := dropEndWhile (· != c) s
  if kept.isEmpty then none else some kept

/-- The quoted text that a text begins with, to the last mark that closes it. -/
def quotedSpan? : List Char → Option (List Char)
  | [] => none
  | c :: s =>
    match closingMark? c with
    | none => none
    | some close => (throughLast? close s).map (c :: ·)

/-- Whether the whole text is one quotation. -/
def isQuotation (s : List Char) : Bool :=
  quotedSpan? s == some s

def quotations (s : List Char) : List (List Char) :=
  (Form.quotation.findAll s).map (·.text)

/-- The target that a text names: the whole text as a locator, the whole text as one quotation, a
quoted locator, a locator after other words, the first quotation, and failing all these the text
itself. -/
def operand (raw : List Char) : Target :=
  let s := trimmed raw
  let whole := Target.ofChars s
  if whole.isExplicit || isQuotation s then whole
  else
    let quoted := (quotations s).map Target.ofChars
    match quoted.find? Target.isExplicit with
    | some locator => locator
    | none =>
      match Form.trailingLocator.find? s with
      | some f => Target.ofChars (f.part .locator)
      | none =>
        match quoted.head? with
        | some target => target
        | none => .implied (String.ofList s)

end PlainSteps.Sentence
