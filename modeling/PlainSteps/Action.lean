import PlainSteps.Target
import PlainSteps.Text.Escape
import PlainSteps.Number.Layout

/-!
# Actions

* `Action` : what a step asks the browser to do.
* `ActionKind` : the kinds of actions that locators are made for, each with its verb.
* `Action.describe` : a short form for logs and listings.
-/

namespace PlainSteps

open Text

/-- What a conditional step asks about its target. -/
inductive Condition where
  | present
  | visible
  deriving DecidableEq, Repr

/-- The state of an element that a step waits for. -/
inductive ElementState where
  | visible
  | hidden
  | attached
  | detached
  deriving DecidableEq, Repr, Inhabited

/-- The word for a state of an element. -/
def ElementState.word : ElementState → String
  | visible => "visible"
  | hidden => "hidden"
  | attached => "attached"
  | detached => "detached"

/-- The state that a condition looks for. -/
def Condition.state : Condition → ElementState
  | present => .attached
  | visible => .visible

/-- The word for a condition in data. -/
def Condition.word : Condition → String
  | present => "exists"
  | visible => "visible"

/-- The name of a condition in descriptions. -/
def Condition.title : Condition → String
  | present => "Exists"
  | visible => "Visible"

/-- The kinds of actions. -/
inductive ActionKind where
  | navigate
  | click
  | fill
  | store
  | conditional
  | waitFor
  | waitDuration
  | verify
  | unknown
  deriving DecidableEq, Repr

namespace ActionKind

def all : List ActionKind :=
  [navigate, click, fill, store, conditional, waitFor, waitDuration, verify, unknown]

/-- The word for a kind in data. -/
def word : ActionKind → String
  | navigate => "navigate"
  | click => "click"
  | fill => "fill"
  | store => "store"
  | conditional => "conditional"
  | waitFor => "wait_for"
  | waitDuration => "wait_duration"
  | verify => "verify"
  | unknown => "unknown"

/-- The verb for a kind in messages. -/
def verb : ActionKind → String
  | navigate => "navigate"
  | click => "click"
  | fill => "fill"
  | store => "read"
  | conditional => "probe"
  | waitFor => "wait for"
  | waitDuration => "wait"
  | verify => "verify"
  | unknown => "run"

end ActionKind

/-- What a step asks the browser to do. -/
inductive Action where
  | navigate (url : String)
  | click (target : Target)
  | fill (value : String) (target : Target)
  | store (source : Target) (name : String)
  | conditional (target : Target) (condition : Condition) (consequence : Action)
  | waitFor (target : Target) (state : ElementState)
  | waitForLoad
  | waitDuration (seconds : Number.Binary64)
  | verify (target : Target)
  | unknown (text : String)
  deriving DecidableEq, Repr, Inhabited

namespace Action

def kind : Action → ActionKind
  | navigate _ => .navigate
  | click _ => .click
  | fill _ _ => .fill
  | store _ _ => .store
  | conditional _ _ _ => .conditional
  | waitFor _ _ | waitForLoad => .waitFor
  | waitDuration _ => .waitDuration
  | verify _ => .verify
  | unknown _ => .unknown

/-- How many characters of an unrecognized sentence a description keeps. -/
def shownCharacters : Nat := 30

def describe : Action → String
  | navigate url => "navigate:" ++ url
  | click target => "click:" ++ target.display
  | fill value target => "fill:" ++ target.display ++ "=" ++ escaped value
  | store source name => "store:" ++ source.display ++ "->" ++ name
  | conditional target condition consequence =>
    "if:" ++ target.display ++ ":" ++ condition.title ++ "->" ++ consequence.describe
  | waitFor target state => "wait:" ++ target.display ++ ":" ++ state.word
  | waitForLoad => "wait:page-load"
  | waitDuration seconds => "sleep:" ++ Number.plain.text seconds ++ "s"
  | verify target => "verify:" ++ target.display
  | unknown text => "unknown:" ++ String.ofList (text.toList.take shownCharacters)

end Action

end PlainSteps
