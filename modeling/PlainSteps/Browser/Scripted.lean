import PlainSteps.Path
import PlainSteps.Session

/-!
# Browsers that follow rules

* `Browser.Script` : rules for what becomes of requests, the texts on the page, the responses that
  requests bring about, and the screenshot.
* `Browser.Script.world` : the world with such a browser. Its state is how often each rule was used.
-/

namespace PlainSteps.Browser

/-- What becomes of a request. -/
inductive Behavior where
  | succeed
  | hang
  | fail (e : BrowserError)
  /-- A timeout that names the request unless it has words of its own. -/
  | runOut (operation : Option String) (ms : Nat)
  /-- A failed navigation to the address asked for. -/
  | strand (reason : String)
  | breakDown (b : Breakdown)
  deriving DecidableEq, Repr

/-- A rule for requests. A star stands for all requests, or for all subjects. -/
structure Rule where
  word : String
  subject : String
  /-- How often the rule may be used, if not always. -/
  times : Option Nat
  delayMs : Nat
  behavior : Behavior
  deriving Repr

/-- A response that successful requests bring about. -/
structure Echo where
  word : String
  subject : String
  exchange : Exchange
  deriving Repr

/-- Rules, texts, responses and the screenshot of a page. -/
structure Script where
  rules : List Rule
  texts : List (String × String)
  echoes : List Echo
  screenshot : List UInt8
  deriving Repr

/-- Whether a pattern names a text; a star names all. -/
def names (pattern text : String) : Bool :=
  pattern == "*" || pattern == text

/-- The first rule for a request that may still be used, and the uses afterwards. -/
def pick (c : Call) : List Rule → List Nat → Option Rule × List Nat
  | [], uses => (none, uses)
  | r :: rs, uses =>
    let used := uses.headD 0
    let free := match r.times with
      | none => true
      | some n => decide (used < n)
    if names r.word c.word && names r.subject c.subject && free then
      (some r, (used + 1) :: uses.drop 1)
    else
      let (found, rest) := pick c rs (uses.drop 1)
      (found, used :: rest)

namespace Script

def value (p : Script) : Call → Value
  | .readText l _ => .text (((p.texts.find? (·.1 == l)).map (·.2)).getD "")
  | .screenshot _ => .image p.screenshot
  | _ => .nothing

/-- How a request ends under a behavior, unless it hangs. -/
def outcome (p : Script) (c : Call) : Behavior → Outcome
  | .succeed | .hang => .ok (p.value c)
  | .fail e => .failed e
  | .runOut operation ms => .failed (.timeout (operation.getD (c.word ++ " " ++ c.subject)) ms)
  | .strand reason => .failed (.navigation c.subject reason)
  | .breakDown b => .breakdown b

/-- What a request does; `uses` counts how often each rule was used. -/
def answer (p : Script) (uses : List Nat) (c : Call) : Answer (List Nat) :=
  let (rule, uses) := pick c p.rules uses
  let behavior := (rule.map (·.behavior)).getD .succeed
  let delay := min Session.longest ((rule.map (·.delayMs)).getD 0)
  let echoes := p.echoes.filter fun e => names e.word c.word && names e.subject c.subject
  { page := uses
    delay := if behavior == .hang then none else some delay
    outcome := p.outcome c behavior
    exchanges := if behavior == .succeed then echoes.map fun e => (delay, e.exchange) else [] }

/-- The world with the browser of a script. Files can be written unless `blocked`, under
names that are not too long. -/
def world (p : Script) (blocked : Bool) (opening : Timestamp) : World (List Nat) where
  answer uses _ c := p.answer uses c
  stores _ _ path := !blocked && Path.isStorable path
  lenient _ := true
  opening

end Script

end PlainSteps.Browser
