import PlainSteps.Json.Record
import PlainSteps.Result

/-!
# Results as records

* `StepResult.toJson`, `CaseResult.toJson`, `RunReport.toJson` : results as JSON records, in which an
  error, a note, a screenshot or a network log that is missing has no field.
* `StepResult.ofJson?`, `CaseResult.ofJson?`, `RunReport.ofJson?` : the results in such records.
-/

namespace PlainSteps

open Json (count? natural? optional? orElse? choice? record)

/-! ## Moments -/

def Timestamp.toJson (t : Timestamp) : Json := .string t.text

def Timestamp.ofJson? (v : Json) : Option Timestamp := v.text?.bind Timestamp.read?

/-! ## Steps -/

def StepStatus.all : List StepStatus := [.pass, .fail, .pending]

/-- The verdict that a word stands for. -/
def StepStatus.ofJson? : Json → Option StepStatus := choice? all word

def StepNote.all : List StepNote := [.unrecognized, .conditionNotMet]

/-- The note that a word stands for. -/
def StepNote.ofJson? : Json → Option StepNote := choice? all word

namespace NetworkEntry

def fieldNames : List String := ["url", "method", "status", "timestamp", "elapsed_ms"]

def toJson (e : NetworkEntry) : Json :=
  .object [("url", .string e.exchange.url), ("method", .string e.exchange.method),
    ("status", .nat e.exchange.status), ("timestamp", e.timestamp.toJson),
    ("elapsed_ms", .nat e.exchange.elapsedMs)]

def ofJson? (v : Json) : Option NetworkEntry :=
  match v.fields? fieldNames with
  | some [url, method, status, timestamp, elapsedMs] => do
    some {
      exchange := {
        url := ← url.bind Json.text?
        method := ← method.bind Json.text?
        status := ← status.bind (natural? (Nat.pow 2 16))
        elapsedMs := ← elapsedMs.bind count? }
      timestamp := ← timestamp.bind Timestamp.ofJson? }
  | _ => none

end NetworkEntry

namespace Screenshot

def fieldNames : List String := ["path", "bytes", "sha256"]

def toJson (s : Screenshot) : Json :=
  .object [("path", .string s.path), ("bytes", .nat s.bytes), ("sha256", .string s.sha256)]

def ofJson? (v : Json) : Option Screenshot :=
  match v.fields? fieldNames with
  | some [path, bytes, sha256] => do
    some {
      path := ← path.bind Json.text?
      bytes := ← bytes.bind count?
      sha256 := ← sha256.bind Json.text? }
  | _ => none

end Screenshot

namespace StepResult

def fieldNames : List String :=
  ["index", "description", "status", "started_at", "finished_at", "duration_ms", "error", "note",
    "screenshot", "network"]

def toJson (s : StepResult) : Json :=
  record [
    ("index", some (.nat s.index)),
    ("description", some (.string s.description)),
    ("status", some (.string s.status.word)),
    ("started_at", some s.startedAt.toJson),
    ("finished_at", some (s.finishedAt.elim .null Timestamp.toJson)),
    ("duration_ms", some (.nat s.durationMs)),
    ("error", s.error.map .string),
    ("note", s.note.map fun n => .string n.word),
    ("screenshot", s.screenshot.map (·.toJson)),
    ("network", s.network.map fun es => .array (es.map (·.toJson)))]

def ofJson? (v : Json) : Option StepResult :=
  match v.fields? fieldNames with
  | some [index, description, status, startedAt, finishedAt, durationMs, error, note, screenshot,
      network] => do
    some {
      index := ← index.bind count?
      description := ← description.bind Json.text?
      status := ← status.bind StepStatus.ofJson?
      startedAt := ← startedAt.bind Timestamp.ofJson?
      finishedAt := ← optional? Timestamp.ofJson? finishedAt
      durationMs := ← durationMs.bind count?
      error := ← optional? Json.text? error
      note := ← optional? StepNote.ofJson? note
      screenshot := ← optional? Screenshot.ofJson? screenshot
      network := ← optional? (Json.list? NetworkEntry.ofJson?) network }
  | _ => none

end StepResult

/-! ## Cases -/

def CaseStatus.all : List CaseStatus := [.pass, .fail]

/-- The verdict that a word stands for. -/
def CaseStatus.ofJson? : Json → Option CaseStatus := choice? all word

/-- The ways in which a case ends. -/
def Termination.all : List Termination := [.completed, .timedOut, .aborted]

/-- The ending that a word stands for. -/
def Termination.ofJson? : Json → Option Termination := choice? all word

namespace CaseSummary

/-- The fields of the counts of a case. -/
def fieldNames : List String := ["passed", "failed", "executed", "total"]

/-- The counts of a case as a record. -/
def toJson (s : CaseSummary) : Json :=
  .object [("passed", .nat s.passed), ("failed", .nat s.failed), ("executed", .nat s.executed),
    ("total", .nat s.total)]

def ofJson? (v : Json) : Option CaseSummary :=
  match v.fields? fieldNames with
  | some [passed, failed, executed, total] => do
    some {
      passed := ← passed.bind count?
      failed := ← failed.bind count?
      executed := ← executed.bind count?
      total := ← total.bind count? }
  | _ => none

end CaseSummary

namespace CaseResult

def fieldNames : List String :=
  ["case_id", "name", "description", "tags", "steps", "summary", "status", "termination",
    "started_at", "finished_at", "duration_ms", "error"]

def toJson (c : CaseResult) : Json :=
  record [
    ("case_id", some (.string c.caseId)),
    ("name", some (.string c.name)),
    ("description", some (.string c.description)),
    ("tags", some (.strings c.tags)),
    ("steps", some (.array (c.steps.map (·.toJson)))),
    ("summary", some c.summary.toJson),
    ("status", some (.string c.status.word)),
    ("termination", some (.string c.termination.word)),
    ("started_at", some c.startedAt.toJson),
    ("finished_at", some c.finishedAt.toJson),
    ("duration_ms", some (.nat c.durationMs)),
    ("error", c.error.map .string)]

def ofJson? (v : Json) : Option CaseResult :=
  match v.fields? fieldNames with
  | some [caseId, name, description, tags, steps, summary, status, termination, startedAt,
      finishedAt, durationMs, error] => do
    some {
      caseId := ← caseId.bind Json.text?
      name := ← name.bind Json.text?
      description := ← orElse? "" Json.text? description
      tags := ← orElse? [] (Json.list? Json.text?) tags
      steps := ← steps.bind (Json.list? StepResult.ofJson?)
      summary := ← summary.bind CaseSummary.ofJson?
      status := ← status.bind CaseStatus.ofJson?
      termination := ← termination.bind Termination.ofJson?
      startedAt := ← startedAt.bind Timestamp.ofJson?
      finishedAt := ← finishedAt.bind Timestamp.ofJson?
      durationMs := ← durationMs.bind count?
      error := ← optional? Json.text? error }
  | _ => none

end CaseResult

/-! ## Runs -/

namespace RunSummary

/-- The fields of the counts of a run. -/
def fieldNames : List String :=
  ["total_cases", "passed_cases", "failed_cases", "total_steps", "passed_steps", "failed_steps",
    "duration_ms"]

/-- The counts of a run as a record. -/
def toJson (s : RunSummary) : Json :=
  .object [("total_cases", .nat s.totalCases), ("passed_cases", .nat s.passedCases),
    ("failed_cases", .nat s.failedCases), ("total_steps", .nat s.totalSteps),
    ("passed_steps", .nat s.passedSteps), ("failed_steps", .nat s.failedSteps),
    ("duration_ms", .nat s.durationMs)]

def ofJson? (v : Json) : Option RunSummary :=
  match v.fields? fieldNames with
  | some [totalCases, passedCases, failedCases, totalSteps, passedSteps, failedSteps,
      durationMs] => do
    some {
      totalCases := ← totalCases.bind count?
      passedCases := ← passedCases.bind count?
      failedCases := ← failedCases.bind count?
      totalSteps := ← totalSteps.bind count?
      passedSteps := ← passedSteps.bind count?
      failedSteps := ← failedSteps.bind count?
      durationMs := ← durationMs.bind count? }
  | _ => none

end RunSummary

namespace RunReport

def fieldNames : List String :=
  ["run_id", "target_url", "started_at", "finished_at", "summary", "cases", "error"]

def toJson (r : RunReport) : Json :=
  record [
    ("run_id", some (.string r.runId)),
    ("target_url", some (.string r.targetUrl)),
    ("started_at", some r.startedAt.toJson),
    ("finished_at", some r.finishedAt.toJson),
    ("summary", some r.summary.toJson),
    ("cases", some (.array (r.cases.map (·.toJson)))),
    ("error", r.error.map .string)]

def ofJson? (v : Json) : Option RunReport :=
  match v.fields? fieldNames with
  | some [runId, targetUrl, startedAt, finishedAt, summary, cases, error] => do
    some {
      runId := ← runId.bind Json.text?
      targetUrl := ← targetUrl.bind Json.text?
      startedAt := ← startedAt.bind Timestamp.ofJson?
      finishedAt := ← finishedAt.bind Timestamp.ofJson?
      summary := ← summary.bind RunSummary.ofJson?
      cases := ← cases.bind (Json.list? CaseResult.ofJson?)
      error := ← optional? Json.text? error }
  | _ => none

end RunReport

end PlainSteps
