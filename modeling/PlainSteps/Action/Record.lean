import PlainSteps.Action
import PlainSteps.Json.Record

/-!
# Actions as records

* `Action.toJson` : an action as a JSON record, whose first field names the kind of action.
* `Action.ofJson?` : the action in such a record.
-/

namespace PlainSteps

def Target.toJson : Target → Json
  | explicit locator => .object [("kind", .string "explicit"), ("value", .string locator)]
  | implied hint => .object [("kind", .string "implied"), ("value", .string hint)]

def Action.toJson : Action → Json
  | navigate url => .object [("action", .string "navigate"), ("url", .string url)]
  | click target => .object [("action", .string "click"), ("target", target.toJson)]
  | fill value target =>
    .object [("action", .string "fill"), ("value", .string value), ("target", target.toJson)]
  | store source name =>
    .object [("action", .string "store"), ("source", source.toJson), ("variable", .string name)]
  | conditional target condition consequence =>
    .object [("action", .string "conditional"), ("target", target.toJson),
      ("condition", .string condition.word), ("then", consequence.toJson)]
  | waitFor target state =>
    .object [("action", .string "wait_for"), ("target", target.toJson),
      ("state", .string state.word)]
  | waitForLoad => .object [("action", .string "wait_for_load")]
  | waitDuration seconds =>
    .object [("action", .string "wait_duration"), ("seconds", .number (.double seconds))]
  | verify target => .object [("action", .string "verify"), ("target", target.toJson)]
  | unknown text => .object [("action", .string "unknown"), ("text", .string text)]

/-! ## Reading -/

/-- The kind of action that a word stands for. -/
def ActionKind.ofJson? : Json → Option ActionKind := Json.choice? all word

namespace Action

/-- A word inside an action, written as a text, or as the name of the only field of an object that
holds nothing. -/
def word? : Json → Option String
  | .object [(w, .object [])] => some w
  | v => v.word?

/-- The one of several values that a word inside an action stands for. -/
def choice? {α : Type} (values : List α) (word : α → String) (v : Json) : Option α :=
  (word? v).bind fun w => values.find? (word · == w)

def target? (v : Json) : Option Target :=
  match v.allFields? ["kind", "value"] with
  | some [kind, value] => do
    let text ← value.text?
    match ← word? kind with
    | "explicit" => some (.explicit text)
    | "implied" => some (.implied text)
    | _ => none
  | _ => none

/-- The condition that a word stands for. -/
def condition? : Json → Option Condition := choice? [.present, .visible] Condition.word

/-- The state that a word stands for. -/
def state? : Json → Option ElementState :=
  choice? [.visible, .hidden, .attached, .detached] ElementState.word

def seconds? : Json → Option Number.Binary64
  | .number (.whole n) => some (.ofInt n)
  | .number (.double x) => some x
  | _ => none

/-- The kinds of actions by their words in records. -/
def recordWords : List String :=
  ["navigate", "click", "fill", "store", "conditional", "wait_for", "wait_for_load",
    "wait_duration", "verify", "unknown"]

/-- The word for the kind of an action. That of an inner action may be given by its number. -/
def recordWord? (inner : Bool) : Json → Option String
  | .string w => some w
  | .number (.whole n) => if inner && 0 ≤ n then recordWords[n.toNat]? else none
  | _ => none

/-- The action of a kind with these fields; `consequence?` reads an action inside it. -/
def ofFields? (consequence? : Json → Option Action) (kind : String) (v : Json) : Option Action :=
  match kind with
  | "navigate" => do
    let [url] ← v.allFields? ["url"] | none
    some (navigate (← url.text?))
  | "click" => do
    let [target] ← v.allFields? ["target"] | none
    some (click (← target? target))
  | "fill" => do
    let [value, target] ← v.allFields? ["value", "target"] | none
    some (fill (← value.text?) (← target? target))
  | "store" => do
    let [source, name] ← v.allFields? ["source", "variable"] | none
    some (store (← target? source) (← name.text?))
  | "conditional" => do
    let [target, condition, consequence] ← v.allFields? ["target", "condition", "then"] | none
    some (conditional (← target? target) (← condition? condition) (← consequence? consequence))
  | "wait_for" => do
    let [target, state] ← v.allFields? ["target", "state"] | none
    some (waitFor (← target? target) (← state? state))
  | "wait_for_load" => do
    let [] ← v.allFields? [] | none
    some waitForLoad
  | "wait_duration" => do
    let [seconds] ← v.allFields? ["seconds"] | none
    some (waitDuration (← seconds? seconds))
  | "verify" => do
    let [target] ← v.allFields? ["target"] | none
    some (verify (← target? target))
  | "unknown" => do
    let [text] ← v.allFields? ["text"] | none
    some (unknown (← text.text?))
  | _ => none

/-- The action in a record in which actions nest at most so deep. -/
def ofJsonWithin? : Nat → Bool → Json → Option Action
  | 0, _, _ => none
  | depth + 1, inner, v => do
    let (kind, rest) ← v.tagged? "action"
    ofFields? (ofJsonWithin? depth true) (← recordWord? inner kind) rest

def ofJson? (v : Json) : Option Action :=
  ofJsonWithin? v.depth false v

end Action

end PlainSteps
