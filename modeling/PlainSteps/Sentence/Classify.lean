import PlainSteps.Action
import PlainSteps.Number.Read
import PlainSteps.Sentence.Operand
import PlainSteps.Variables

/-!
# What a sentence asks for

* `normalize` : a sentence without its number in a list and without the punctuation at its end.
* `classify` : the action that a sentence asks for. The forms are tried in a fixed order, since one
  sentence can have several; one that has none is an unknown action.
* `classifyWithin` : the same with a bound on how deep conditional steps may nest.
-/

namespace PlainSteps.Sentence

open Text

def isFinalMark (c : Char) : Bool :=
  c == '.' || c == ';' || c == '!'

/-- A sentence without its number in a list and without the punctuation at its end. -/
def normalized (s : List Char) : List Char :=
  let s := trimmed s
  let s := match Form.numbering.match? s with
    | some f => f.stop.after
    | none => s
  trimmed (dropEndWhile isFinalMark s)

/-- A sentence without its number in a list and without the punctuation at its end. -/
def normalize (s : String) : String :=
  String.ofList (normalized s.toList)

/-! ## The forms, each as an action -/

def isBrace (c : Char) : Bool :=
  c == '{' || c == '}'

/-- The name in an operand, which may stand between quotation marks or braces. -/
def nameIn (s : List Char) : List Char :=
  dropEndWhile isBrace ((unquoted s).dropWhile isBrace)

/-- Keeps a text under a name. -/
def store? (s : List Char) : Option Action := do
  let f ← Form.store.match? s
  let name := nameIn (f.part .name)
  if isName name then some (.store (operand (f.part .source)) (String.ofList name)) else none

/-- The condition that a word asks about, by its spelling in ASCII. -/
def conditionOf (question : List Char) : Condition :=
  if ["exist", "exists", "present"].contains (lowered (String.ofList question)) then .present
  else .visible

def pageLoad? (s : List Char) : Option Action :=
  if Form.pageLoad.matches? s then some .waitForLoad else none

/-- The state that a word names, by its spelling in ASCII. -/
def stateOf (word : List Char) : ElementState :=
  let w := lowered (String.ofList word)
  if ["hidden", "disappear", "disappears", "gone"].contains w then .hidden
  else if w == "attached" then .attached
  else if w == "detached" then .detached
  else .visible

/-- Waits for an element, unless the sentence states a length of time. -/
def waitFor? (s : List Char) : Option Action := do
  if Form.duration.matches? s then none
  else
    let f ← Form.waitFor.match? s
    some (.waitFor (operand (f.part .target)) (stateOf (f.part .state)))

def click? (s : List Char) : Option Action := do
  let f ← Form.click.match? s
  some (.click (operand (f.part .target)))

/-- Fills a field. The value is always a literal, and only the field may be a locator. -/
def fill? (s : List Char) : Option Action := do
  let f ← Form.fill.match? s
  let orders :=
    if startsWith "fill".toList ((f.part .verb).map lower) then [Form.fillWith, Form.fillInto]
    else [Form.fillInto, Form.fillWith]
  let g ← orders.findSome? (·.match? (f.part .operands))
  some (.fill (String.ofList (unquoted (g.part .value))) (operand (g.part .target)))

/-- How the address of a page may begin. -/
def schemes : List String := ["http://", "https://", "file://"]

/-- Whether a text is an address as it stands: one with a scheme or one relative to the site. -/
def isAddress (s : List Char) : Bool :=
  schemes.any (fun p => startsWith p.toList (s.map lower)) || s.head? == some '/'

/-- The address of a page in a text; a bare site is reached over `https`. -/
def address? (s : List Char) : Option (List Char) :=
  if isAddress s then some s
  else if Form.domain.matches? s then some ("https://".toList ++ s)
  else none

/-- Opens a page: a quoted address, or the first word. -/
def navigate? (s : List Char) : Option Action := do
  let f ← Form.navigate.match? s
  let raw := trimmed (f.part .url)
  let candidate := match Form.quotation.find? raw with
    | some q => unquoted q.text
    | none => (words raw).headD raw
  let url ← address? candidate
  some (.navigate (String.ofList url))

/-- A text without words about presence at its end. -/
def withoutPresence (s : List Char) : List Char :=
  match Form.trailingPresence.find? s with
  | some f => f.start.before.reverse ++ f.stop.after
  | none => s

def verify? (s : List Char) : Option Action := do
  let f ← [Form.verify, Form.shouldSee, Form.shouldBe].findSome? (·.match? s)
  let target := trimmed (f.part .target)
  let target := if isQuotation target then target else withoutPresence target
  if (trimmed target).isEmpty then none else some (.verify (operand target))

/-- The length of a pause in seconds, by the spelling of its unit in ASCII. -/
def inSeconds (n : Number.Binary64) (unit : List Char) : Number.Binary64 :=
  let u := lowered (String.ofList unit)
  if ["ms", "millis", "millisecond", "milliseconds"].contains u then .ofFloat (n.toFloat / 1000)
  else if ["m", "min", "mins", "minute", "minutes"].contains u then .ofFloat (n.toFloat * 60)
  else n

/-- Pauses, for `usual` seconds when the sentence states no length. -/
def pause? (usual : Number.Binary64) (s : List Char) : Option Action :=
  match Form.duration.match? s with
  | some f =>
    (Number.readPlain? (f.part .number)).map fun n => .waitDuration (inSeconds n (f.part .unit))
  | none => if Form.bareWait.matches? s then some (.waitDuration usual) else none

/-! ## Classification -/

/-- The forms without nesting that come after the conditional one, in their order. -/
def plainAction? (usual : Number.Binary64) (s : List Char) : Option Action :=
  [pageLoad?, waitFor?, click?, fill?, navigate?, verify?, pause? usual].findSome? (· s)

/-- The action of one sentence. A conditional step's consequence is read by `inner`; without it
the step is nested too deep and unknown as a whole. -/
def classifyWith (usual : Number.Binary64) (inner : Option (List Char → Action)) (text : List Char) :
    Action :=
  let s := normalized text
  if s.isEmpty then .unknown (String.ofList text)
  else
    match store? s with
    | some action => action
    | none =>
      match Form.conditional.match? s with
      | some f =>
        match inner with
        | none => .unknown (String.ofList s)
        | some classify =>
          .conditional (operand (f.part .condition)) (conditionOf (f.part .question))
            (classify (f.part .consequence))
      | none => (plainAction? usual s).getD (.unknown (String.ofList (trimmed text)))

/-- The action of a sentence in which conditional steps nest at most `depth` deep. -/
def classifyWithin (usual : Number.Binary64) : Nat → List Char → Action
  | 0 => classifyWith usual none
  | depth + 1 => classifyWith usual (some (classifyWithin usual depth))

/-- What classification depends on besides the sentence. -/
structure Rules where
  /-- How deep conditional steps may nest. -/
  maxDepth : Nat
  /-- The seconds of a pause without a length. -/
  usualPause : Number.Binary64

/-- The action that a sentence asks for. -/
def classify (rules : Rules) (text : String) : Action :=
  classifyWithin rules.usualPause rules.maxDepth text.toList

end PlainSteps.Sentence
