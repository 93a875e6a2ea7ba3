import PlainSteps.Action.Record
import PlainSteps.Command.Settings
import PlainSteps.Locator
import PlainSteps.Sentence.Classify

/-!
# The command that classifies sentences

* `Classification.of` : what a sentence is taken for, and the locators that would be tried.
* `classify` : prints this for several sentences.
-/

namespace PlainSteps.Command

/-- What a sentence is taken for. -/
structure Classification where
  step : String
  action : Action
  /-- The locators that would be tried. -/
  candidates : List String

namespace Classification

/-- What a sentence is taken for under the settings. -/
def of (s : Settings) (step : String) : Classification :=
  let rules : Sentence.Rules :=
    ⟨s.execution.maxConditionalDepth.toNat, s.execution.defaultWaitSecs⟩
  let action := Sentence.classify rules step
  { step, action, candidates := action.candidates s.stopWords.resolver }

/-- A classification as a record; without candidates it has no field for them. -/
def toJson (c : Classification) : Json :=
  .record [
    ("step", some (.string c.step)),
    ("action", some c.action.toJson),
    ("candidates", if c.candidates.isEmpty then none else some (.strings c.candidates))]

/-- A number before a candidate, two places wide at least. -/
def ordinal (n : Nat) : String :=
  let digits := toString n
  (if digits.length < 2 then " " else "") ++ digits ++ "."

/-- The candidates with their numbers from one on. -/
def candidateLines (emphasis : Bool) (candidates : List String) : List String :=
  candidates.zipIdx.map fun (c, i) =>
    "  " ++ Emphasis.dimmed.apply emphasis (ordinal (i + 1)) ++ " " ++ c

def lines (emphasis : Bool) (c : Classification) : List String :=
  Emphasis.bold.apply emphasis c.step ::
    ("  " ++ Emphasis.dimmed.apply emphasis "action:" ++ " " ++ c.action.describe) ::
      candidateLines emphasis c.candidates

end Classification

def shownClassifications (emphasis : Bool) (f : Format) (cs : List Classification) : Printed :=
  match f with
  | .table => { out := String.join ((cs.flatMap (·.lines emphasis)).map (· ++ "\n")) }
  | f => f.data (.array (cs.map (·.toJson)))

def classify {σ : Type} (h : Host σ) (path : String) (f : Format) (steps : List String) :
    Outcome σ :=
  match loadSettings h path with
  | .error message => .failure message
  | .ok s => .success (shownClassifications h.emphasis f (steps.map (Classification.of s)))

end PlainSteps.Command
