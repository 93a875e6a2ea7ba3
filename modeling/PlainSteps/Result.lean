import PlainSteps.TestCase
import PlainSteps.Timestamp

/-!
# Results

* `StepResult`, `CaseResult`, `RunReport` : what became of a step, a case and a whole run.
* `CaseResult.ofSteps` and `RunReport.ofCases` : counts and verdicts follow from the results below.
* `CaseResult.isPass` and `RunReport.isSuccess` : a case passes when all its steps were run and none
  failed; a run succeeds when it has no error of its own and all its cases pass.
-/

namespace PlainSteps

/-! ## Steps -/

/-- The verdict on a step. -/
inductive StepStatus where
  | pass
  | fail
  /-- The step has begun and not ended. -/
  | pending
  deriving DecidableEq, Repr

def StepStatus.word : StepStatus → String
  | pass => "PASS"
  | fail => "FAIL"
  | pending => "PENDING"

/-- Why a step passed without doing anything. -/
inductive StepNote where
  /-- The sentence has no known form. -/
  | unrecognized
  /-- The condition of the step did not hold. -/
  | conditionNotMet
  deriving DecidableEq, Repr

/-- The word for a note in data. -/
def StepNote.word : StepNote → String
  | unrecognized => "unrecognized"
  | conditionNotMet => "condition_not_met"

/-- The name of a note in messages. -/
def StepNote.title : StepNote → String
  | unrecognized => "Unrecognized"
  | conditionNotMet => "ConditionNotMet"

/-- A response that the browser received. -/
structure Exchange where
  url : String
  method : String
  status : Nat
  elapsedMs : Nat
  deriving DecidableEq, Repr

/-- A response with the moment at which it was noted. -/
structure NetworkEntry where
  exchange : Exchange
  timestamp : Timestamp
  deriving DecidableEq, Repr

/-- A screenshot on disk. -/
structure Screenshot where
  path : String
  bytes : Nat
  sha256 : String
  deriving DecidableEq, Repr

/-- What became of a step. -/
structure StepResult where
  /-- The place in the case, counted from zero. -/
  index : Nat
  description : String
  status : StepStatus
  startedAt : Timestamp
  finishedAt : Option Timestamp
  durationMs : Nat
  error : Option String
  note : Option StepNote
  screenshot : Option Screenshot
  network : Option (List NetworkEntry)
  deriving DecidableEq, Repr

namespace StepResult

def begun (index : Nat) (description : String) (now : Timestamp) : StepResult where
  index
  description
  status := .pending
  startedAt := now
  finishedAt := none
  durationMs := 0
  error := none
  note := none
  screenshot := none
  network := none

/-- The step with a verdict, `elapsed` milliseconds after it began. -/
def finish (s : StepResult) (status : StepStatus) (now : Timestamp) (elapsed : Nat) : StepResult :=
  { s with status, finishedAt := some now, durationMs := elapsed }

def isPass (s : StepResult) : Bool := s.status == .pass

def isFail (s : StepResult) : Bool := s.status == .fail

end StepResult

/-! ## Cases -/

/-- The verdict on a case. -/
inductive CaseStatus where
  | pass
  | fail
  deriving DecidableEq, Repr

def CaseStatus.word : CaseStatus → String
  | pass => "PASS"
  | fail => "FAIL"

/-- How a case ended. -/
inductive Termination where
  /-- All steps were run. -/
  | completed
  /-- The time for the case was over before its steps were. -/
  | timedOut
  /-- A step failed, and the steps after it were left out. -/
  | aborted
  deriving DecidableEq, Repr

def Termination.word : Termination → String
  | completed => "completed"
  | timedOut => "timed_out"
  | aborted => "aborted"

/-- The counts of a case: steps that passed, failed, were run, and were asked for. -/
structure CaseSummary where
  passed : Nat
  failed : Nat
  executed : Nat
  total : Nat
  deriving DecidableEq, Repr

/-- What became of a case. -/
structure CaseResult where
  caseId : String
  name : String
  description : String
  tags : List String
  steps : List StepResult
  summary : CaseSummary
  status : CaseStatus
  termination : Termination
  startedAt : Timestamp
  finishedAt : Timestamp
  durationMs : Nat
  error : Option String
  deriving DecidableEq, Repr

namespace CaseSummary

/-- The counts of the steps of a case of `total` steps. -/
def ofSteps (total : Nat) (steps : List StepResult) : CaseSummary where
  passed := steps.countP (·.isPass)
  failed := steps.countP (·.isFail)
  executed := steps.length
  total

end CaseSummary

namespace CaseResult

/-- The result of a case whose steps had these results; the counts and the verdict follow from
them. -/
def ofSteps (c : TestCase) (steps : List StepResult) (termination : Termination)
    (error : Option String) (startedAt finishedAt : Timestamp) (durationMs : Nat) : CaseResult where
  caseId := c.id
  name := c.name
  description := c.description
  tags := c.tags
  steps
  summary := .ofSteps c.steps.length steps
  status :=
    if steps.countP (·.isFail) == 0 && steps.length == c.steps.length then .pass else .fail
  termination
  startedAt
  finishedAt
  durationMs
  error

def isPass (c : CaseResult) : Bool := c.status == .pass

/-- The error to show for a case: its own, or that of its last step that has one. -/
def shownError (c : CaseResult) : String :=
  (c.error.or (c.steps.reverse.findSome? (·.error))).getD ""

end CaseResult

/-! ## Runs -/

/-- The counts of a run. -/
structure RunSummary where
  totalCases : Nat
  passedCases : Nat
  failedCases : Nat
  totalSteps : Nat
  passedSteps : Nat
  failedSteps : Nat
  durationMs : Nat
  deriving DecidableEq, Repr

/-- A count of each case, added up. -/
def CaseSummary.sumOver (count : CaseSummary → Nat) : List CaseResult → Nat
  | [] => 0
  | c :: rest => count c.summary + sumOver count rest

/-- The counts of the cases of a run. -/
def RunSummary.ofCases (cases : List CaseResult) (durationMs : Nat) : RunSummary where
  totalCases := cases.length
  passedCases := cases.countP (·.isPass)
  failedCases := cases.length - cases.countP (·.isPass)
  totalSteps := CaseSummary.sumOver (·.total) cases
  passedSteps := CaseSummary.sumOver (·.passed) cases
  failedSteps := CaseSummary.sumOver (·.failed) cases
  durationMs

/-- What became of a run. -/
structure RunReport where
  runId : String
  targetUrl : String
  startedAt : Timestamp
  finishedAt : Timestamp
  summary : RunSummary
  cases : List CaseResult
  /-- Why the run could not go through its cases. -/
  error : Option String
  deriving DecidableEq, Repr

namespace RunReport

/-- The report on a run whose cases had these results. -/
def ofCases (runId targetUrl : String) (cases : List CaseResult) (error : Option String)
    (startedAt finishedAt : Timestamp) (durationMs : Nat) : RunReport where
  runId
  targetUrl
  startedAt
  finishedAt
  summary := .ofCases cases durationMs
  cases
  error

/-- Whether there is no error and every case passed. -/
def isSuccess (r : RunReport) : Bool :=
  r.error.isNone && r.cases.all (·.isPass)

end RunReport

end PlainSteps
