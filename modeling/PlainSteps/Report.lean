import PlainSteps.Json.Writer
import PlainSteps.Result.Record
import PlainSteps.Table
import PlainSteps.Yaml.Writer

/-!
# Reports for the reader

* `Printed` : what is written to the two channels of a program.
* `RunReport.printed` and `CaseResult.listing` : results in one of three formats.
* `StepResult.printed` : one line about a step that has ended.
* `Printed.success`, `Printed.failure`, `Printed.warning` : messages.
-/

namespace PlainSteps

/-- What is written: the results, and what is said about the work. -/
structure Printed where
  out : String := ""
  err : String := ""
  deriving DecidableEq, Repr

namespace Printed

/-- One piece of writing after the other. -/
instance : Append Printed := ⟨fun p q => ⟨p.out ++ q.out, p.err ++ q.err⟩⟩

def outLine (s : String) : Printed := { out := s ++ "\n" }

def errLine (s : String) : Printed := { err := s ++ "\n" }

def success (message : String) : Printed := outLine ("✅ " ++ message)

def failure (message : String) : Printed := errLine ("❌ " ++ message)

def warning (message : String) : Printed := errLine ("⚠️  " ++ message)

end Printed

/-! ## Formats -/

/-- A format for results. -/
inductive Format where
  | table
  | json
  | yaml
  deriving DecidableEq, Repr

def Format.word : Format → String
  | table => "table"
  | json => "json"
  | yaml => "yaml"

/-- The format that a word stands for. -/
def Format.ofWord? (w : String) : Option Format :=
  [table, json, yaml].find? (·.word == w)

/-- Data as text; what has no table of its own is JSON there. -/
def Format.data (f : Format) (v : Json) : Printed :=
  match f with
  | yaml => .outLine (Yaml.document v)
  | _ => .outLine v.pretty

/-! ## Emphasis -/

/-- A manner of emphasis. -/
inductive Emphasis where
  | green
  | red
  | dimmed
  | bold
  deriving DecidableEq, Repr

/-- The number of an emphasis in the control sequences of terminals. -/
def Emphasis.code : Emphasis → String
  | green => "32"
  | red => "31"
  | dimmed => "2"
  | bold => "1"

/-- A text with emphasis, if that is wanted. -/
def Emphasis.apply (e : Emphasis) (wanted : Bool) (s : String) : String :=
  if wanted then "\x1b[" ++ e.code ++ "m" ++ s ++ "\x1b[0m" else s

/-! ## Results -/

/-- The heads of the columns of a list of cases. -/
def CaseResult.heads : List String :=
  ["Case", "Status", "Steps", "Ended", "Duration", "Error"]

def CaseResult.row (c : CaseResult) : List String :=
  [c.name, c.status.word, toString c.summary.passed ++ "/" ++ toString c.summary.total,
    c.termination.word, toString c.durationMs ++ " ms", c.shownError]

def CaseResult.listing (f : Format) (cs : List CaseResult) : Printed :=
  if cs.isEmpty then .outLine "No items found."
  else
    match f with
    | .table => .outLine ("\n".intercalate (Table.lines heads (cs.map row)))
    | f => f.data (.array (cs.map (·.toJson)))

/-- The counts of a run in a sentence. -/
def RunSummary.sentence (s : RunSummary) : String :=
  toString s.totalCases ++ " case(s): " ++ toString s.passedCases ++ " passed, " ++
    toString s.failedCases ++ " failed; " ++ toString s.totalSteps ++ " step(s): " ++
    toString s.passedSteps ++ " passed, " ++ toString s.failedSteps ++ " failed (" ++
    toString s.durationMs ++ " ms)"

/-- A run: its error, its cases and its counts, or all its data. -/
def RunReport.printed (emphasis : Bool) (f : Format) (r : RunReport) : Printed :=
  match f with
  | .table =>
    r.error.elim {} .failure ++
      (if r.cases.isEmpty then {} else CaseResult.listing .table r.cases) ++
      if r.isSuccess then .success r.summary.sentence
      else .outLine (Emphasis.red.apply emphasis r.summary.sentence)
  | f => f.data r.toJson

/-- The sign before a step that has ended. -/
def StepStatus.sign? : StepStatus → Option (Emphasis × String)
  | pass => some (.green, "✓")
  | fail => some (.red, "✗")
  | pending => none

/-- A line about a step, and another one for its error; nothing before it has ended. -/
def StepResult.printed (emphasis : Bool) (caseId : String) (s : StepResult) : Printed :=
  match s.status.sign? with
  | none => {}
  | some (e, sign) =>
    let head := e.apply emphasis sign ++ " [" ++ caseId ++ "] " ++ toString (s.index + 1) ++ ". " ++
      s.description ++ " (" ++ toString s.durationMs ++ " ms)"
    let note := s.note.elim "" fun n =>
      " " ++ Emphasis.dimmed.apply emphasis ("[" ++ n.title ++ "]")
    .errLine (head ++ note) ++
      s.error.elim {} fun e => .errLine ("    " ++ Emphasis.red.apply emphasis e)

end PlainSteps
