import PlainSteps.Quote
import PlainSteps.Text.Ascii

/-!
# Targets

* `Target` : the element that a step is about, either a locator as the author wrote it or a hint
  in words.
* `Target.parse` : a text is a locator when it begins with one of the engine names of
  `locatorEngines`, in any letter case and possibly between quotation marks.
-/

namespace PlainSteps

open Text

/-- The element a step is about. -/
inductive Target where
  /-- A locator that is used as it stands. -/
  | explicit (locator : String)
  /-- Words that stand for an element, with the quotation marks the author used. -/
  | implied (hint : String)
  deriving DecidableEq, Repr, Inhabited

def locatorEngines : List String := ["css=", "xpath=", "text="]

/-- The engine name that a text begins with, in any letter case. -/
def locatorEngine? (s : List Char) : Option String :=
  locatorEngines.find? fun e => startsWith e.toList (s.map lower)

namespace Target

/-- Reads a target; the engine name of a locator is kept in lower case. -/
def ofChars (raw : List Char) : Target :=
  let inner := unquoted raw
  match locatorEngine? inner with
  | some engine => explicit (engine ++ String.ofList (inner.drop engine.length))
  | none => implied (String.ofList (trimmed raw))

/-- Reads a target; the engine name of a locator is kept in lower case. -/
def parse (raw : String) : Target :=
  ofChars raw.toList

/-- Whether the target is a locator of the author's. -/
def isExplicit : Target → Bool
  | explicit _ => true
  | implied _ => false

def hint : Target → String
  | explicit locator => locator
  | implied hint => hint

/-- A target as it is shown: locators as they are, hints between double quotes. -/
def display : Target → String
  | explicit locator => locator
  | implied hint => "\"" ++ unquote hint ++ "\""

end Target

end PlainSteps
