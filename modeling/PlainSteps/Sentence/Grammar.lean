import PlainSteps.Pattern
import PlainSteps.Text.Blank
import PlainSteps.Text.WordChar

/-!
# The forms of a sentence

One pattern for each form a step may take, and the pieces they share. Words are read in any letter
case; blanks are those of `Text.isBlank`; a text in a form is a run of characters without a line
feed.
-/

namespace PlainSteps.Sentence

open Text

/-- The parts of a sentence that its form names. -/
inductive Part where
  | locator
  | source
  | name
  | condition
  | question
  | consequence
  | number
  | unit
  | target
  | state
  | verb
  | operands
  | value
  | url
  deriving DecidableEq, Repr

abbrev Form := Pattern Part

namespace Form

open Pattern

/-! ## Pieces -/

/-- The lower-case letter that a character is a form of: capitals, the long s and the Kelvin sign
count as their letters. -/
def foldCase (c : Char) : Char :=
  if 'A' ≤ c ∧ c ≤ 'Z' then Char.ofNat (c.toNat + 32)
  else if c = 'ſ' then 's'
  else if c = Char.ofNat 0x212A then 'k'
  else c

/-- One form after the other. -/
def chain : List Form → Form
  | [] => nothing
  | [p] => p
  | p :: ps => both p (chain ps)

/-- The first of the forms that leads to a match. -/
def anyOf : List Form → Form
  | [] => nothing
  | [p] => p
  | p :: ps => either p (anyOf ps)

/-- The form or nothing, the form being preferred. -/
def optional (p : Form) : Form := either p nothing

/-- A letter in either case, or a sign. -/
def letter (c : Char) : Form := one fun d => foldCase d == c

def word (w : String) : Form := chain (w.toList.map letter)

def oneOf (ws : List String) : Form := anyOf (ws.map word)

/-- A word with an optional ending. -/
def stem (w ending : String) : Form := both (word w) (optional (word ending))

/-- Blanks, or none. -/
def blanks : Form := many isBlank

/-- At least one blank. -/
def gap : Form := both (one isBlank) (many isBlank)

/-- A form and a gap after it, or nothing. -/
def leading (p : Form) : Form := optional (both p gap)

/-- A character other than a line feed. -/
def onLine (c : Char) : Bool := c != '\n'

/-- A text, as short as the rest allows. -/
def shortText : Form := both (one onLine) (few onLine)

/-- A text, as long as the rest allows. -/
def longText : Form := both (one onLine) (many onLine)

/-- Characters that are not blank. -/
def unbroken : Form := both (one fun c => !isBlank c) (many fun c => !isBlank c)

/-- Decimal digits. -/
def number : Form := both (one isDigit) (many isDigit)

/-- A text between two marks that does not hold the second. -/
def between (opening closing : Char) : Form :=
  chain [one (· == opening), many (· != closing), one (· == closing)]

def quotations : List Form :=
  [between '"' '"', between '\'' '\'', between '“' '”', between '‘' '’']

def quotation : Form := anyOf quotations

/-- The place where a word ends or begins. -/
def wordEdge : Form := edge isWordChar

/-! ## Forms -/

/-- The number of a step in a list. -/
def numbering : Form :=
  chain [blanks, optional (both (word "step") blanks), number, blanks,
    one (fun c => c == '.' || c == ')' || c == ':'), gap]

/-- A locator at the start or after a blank, up to the end. -/
def trailingLocator : Form :=
  chain [either textStart (one isBlank),
    part .locator (chain [oneOf ["css", "xpath", "text"], word "=", one (fun c => !isBlank c),
      many onLine]),
    textEnd]

/-- A text that is kept under a name. -/
def store : Form :=
  chain [blanks, oneOf ["store", "save", "remember", "capture"], gap, leading (word "the"),
    leading (oneOf ["text", "value", "content"]), leading (oneOf ["of", "from", "in"]),
    part .source shortText, gap, oneOf ["as", "into", "in", "to"], gap,
    optional (chain [leading (word "the"), word "variable", gap]),
    part .name unbroken, blanks, textEnd]

/-- A step that depends on an element. -/
def conditional : Form :=
  chain [blanks, word "if", gap, part .condition shortText, gap, leading (oneOf ["is", "are"]),
    part .question (anyOf [stem "exist" "s", word "present", word "visible", word "displayed",
      word "shown", stem "appear" "s"]),
    either (chain [blanks, word ",", blanks, leading (word "then")]) (chain [gap, word "then", gap]),
    part .consequence longText, textEnd]

def duration : Form :=
  chain [blanks, oneOf ["wait", "pause", "sleep"], optional (both gap (word "for")), gap,
    part .number (both number (optional (both (word ".") number))), blanks,
    optional (part .unit (anyOf [word "ms", word "millis", stem "millisecond" "s", word "s",
      stem "sec" "s", stem "second" "s", word "m", stem "min" "s", stem "minute" "s"])),
    wordEdge]

def waitFor : Form :=
  chain [blanks, word "wait", gap, oneOf ["for", "until"], gap, part .target shortText,
    optional (chain [gap,
      optional (anyOf [chain [word "to", gap, leading (word "be")], both (word "is") gap,
        both (word "are") gap, both (stem "become" "s") gap]),
      part .state (anyOf [word "visible", word "hidden", stem "appear" "s", stem "disappear" "s",
        word "attached", word "detached", word "gone", word "present", word "displayed",
        word "shown"])]),
    blanks, textEnd]

def pageLoad : Form :=
  chain [blanks, word "wait", gap, oneOf ["for", "until"], gap, leading (word "the"), word "page",
    gap, leading (word "to"),
    either
      (chain [leading (stem "finish" "es"), word "load", optional (oneOf ["s", "ing"])])
      (both (optional (either (both (word "is") gap) (chain [word "to", gap, word "be", gap])))
        (word "loaded")),
    blanks, textEnd]

def click : Form :=
  chain [blanks,
    anyOf [chain [word "double", optional (one fun c => c == '-' || isBlank c), word "click"],
      word "click", word "press", word "tap"],
    optional (both gap (word "on")), gap, part .target longText, textEnd]

/-- A field that is filled; the operands are read by `fillInto` and `fillWith`. -/
def fill : Form :=
  chain [blanks,
    part .verb (anyOf [word "type", word "enter", both (word "fill") (optional (both gap (word "in"))),
      word "input", word "write"]),
    gap, part .operands longText, textEnd]

/-- The value first, then the field. -/
def fillInto : Form :=
  chain [part .value (anyOf (quotations ++ [shortText])), gap, oneOf ["into", "in", "to", "on"],
    gap, leading (word "the"), part .target longText, textEnd]

/-- The field first, then the value. -/
def fillWith : Form :=
  chain [leading (word "the"), part .target (anyOf (quotations ++ [shortText])), gap, word "with",
    gap, part .value longText, textEnd]

def navigate : Form :=
  chain [blanks, oneOf ["navigate", "go", "visit", "open", "browse", "load"], gap,
    leading (word "to"), leading (word "the"), leading (oneOf ["url", "page", "site", "website"]),
    part .url longText, textEnd]

/-- A letter from a to z in any case. -/
def isLatin (c : Char) : Bool :=
  let d := foldCase c
  'a' ≤ d && d ≤ 'z'

/-- A letter from a to z in any case, or a digit from 0 to 9. -/
def isLatinOrDigit (c : Char) : Bool :=
  isLatin c || ('0' ≤ c && c ≤ '9')

/-- The address of a site without a scheme. -/
def domain : Form :=
  chain [one isLatinOrDigit, many (fun c => isLatinOrDigit c || c == '.' || c == '-'), word ".",
    one isLatin, one isLatin, many isLatin, optional (both (word ":") number),
    optional (both (word "/") (many fun c => !isBlank c)), textEnd]

def verify : Form :=
  chain [blanks,
    oneOf ["verify", "check", "assert", "expect", "ensure", "confirm", "validate"],
    optional (both gap (word "that")), gap, part .target longText, textEnd]

/-- A check in the words of a user. -/
def shouldSee : Form :=
  chain [blanks,
    leading (anyOf [word "i", chain [word "the", gap, word "user"], word "user"]),
    word "should", gap, word "see", gap, part .target longText, textEnd]

/-- A check that names the element first. -/
def shouldBe : Form :=
  chain [blanks, part .target shortText, gap, word "should", gap, leading (word "be"),
    oneOf ["visible", "displayed", "shown", "present", "appear", "exist"], blanks, textEnd]

/-- Words about presence at the end of a text. -/
def trailingPresence : Form :=
  chain [
    optional (chain [gap, leading (oneOf ["is", "are"]),
      anyOf [word "visible", word "displayed", word "present", word "shown", stem "exist" "s",
        stem "appear" "s"]]),
    optional (chain [gap, word "on", gap, leading (word "the"), oneOf ["page", "screen"]]),
    blanks, textEnd]

/-- A pause without a length. -/
def bareWait : Form :=
  chain [blanks, oneOf ["wait", "pause", "sleep"], wordEdge]

end Form

end PlainSteps.Sentence
