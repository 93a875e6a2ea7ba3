import PlainSteps.Command.Invocation
import PlainSteps.Command.Settings
import PlainSteps.Run

/-!
# The command that runs cases

* `runSettings` : the settings of a run: the file, then the environment, then the switches.
* `selectedCases` : the cases that are asked for.
* `runCases` : runs them, and reports.
* `exitCode` : what the exit code says about a report.
-/

namespace PlainSteps

/-- A fault in a case file in words. -/
def CaseFault.reason : CaseFault → String
  | malformed => "the text is malformed"
  | noCases => "data did not match any variant of untagged enum CaseFile"

def CaseFileError.message (e : CaseFileError) : String :=
  match e.unread with
  | none => "Test case parse error in " ++ e.path ++ ": " ++ e.fault.reason
  | some reason => (Command.FileFault.unreadable reason).message

namespace Command

variable {σ : Type}

/-! ## Settings and cases -/

/-- The settings with the choices made by switches. -/
def RunOptions.apply (o : RunOptions) (s : Settings) : Settings :=
  { s with
    browser := { s.browser with
      kind := o.browser.getD s.browser.kind
      headless := s.browser.headless && !o.headed }
    evidence := {
      captureScreenshots := s.evidence.captureScreenshots && !o.noScreenshots
      captureNetwork := s.evidence.captureNetwork || o.network
      outputDir := o.evidenceDir.getD s.evidence.outputDir } }

/-- The settings of a run, or an error message. -/
def runSettings (h : Host σ) (path : String) (o : RunOptions) : Except String Settings := do
  let s ← (loadSettings h path).mapError fun m => "failed to load config from " ++ path ++ ": " ++ m
  let s ← (s.withEnvironment h.environment).mapError (·.message)
  let s := o.apply s
  (s.validate).mapError (·.message)
  .ok s

/-- The cases asked for, or an error message: those of a tag, or the one with an identifier among
them. -/
def selectedCases (h : Host σ) (o : RunOptions) : Except String (List TestCase) := do
  let cases ← (CaseFile.load h.freshId o.cases (h.look o.cases)).mapError fun e =>
    "failed to load cases from " ++ o.cases ++ ": " ++ e.message
  let cases := o.tag.elim cases (TestCase.tagged · cases)
  match o.caseId with
  | none => .ok cases
  | some id =>
    match TestCase.find cases id with
    | .ok c => .ok [c]
    | .error e => .error e.message

/-! ## Reporting -/

/-- The exit code after a run: whether it had an error, and whether all cases passed. -/
def exitCode (r : RunReport) : Nat :=
  if r.error.isSome then errorCode else if r.isSuccess then passedCode else failedCode

/-- The lines on the steps of a run. -/
def progressLines (emphasis : Bool) (progress : List Progress) : Printed :=
  progress.foldl (fun printed p => printed ++ p.result.printed emphasis p.caseId) {}

/-- What is left behind after a run: lines on its steps, a report file, and the report. If the file
cannot be written there is an error in place of the report. -/
def reported (h : Host σ) (f : Format) (output : Option String) (r : RunReport) (s : Session σ) :
    Outcome σ :=
  let steps := progressLines h.emphasis (s.progress.getD [])
  let finished (writes : List (String × String)) : Outcome σ :=
    { code := exitCode r, printed := steps ++ r.printed h.emphasis f, writes, session := some s }
  match output with
  | none => finished []
  | some path =>
    match h.mayWrite path with
    | .error fault =>
      { code := errorCode
        printed := steps ++
          .failure ("failed to write report to " ++ path ++ ": " ++ fault.message)
        session := some s }
    | .ok () => finished [(path, r.toJson.pretty)]

/-- Runs cases under settings. Steps are reported as they end if the report is a table. -/
def runSelected (h : Host σ) (f : Format) (o : RunOptions) (s : Settings) (cases : List TestCase) :
    Ended (Outcome σ) :=
  let run : Run := {
    runId := h.runId, settings := s, targetUrl := o.url
    launch := s.browser.launchOptions h.environment
    resolve := s.stopWords.resolver }
  let session : Session σ := {
    page := h.page
    progress := if f == .table then some [] else none }
  match run.execute (h.world s.browser) cases session with
  | (.halted halt, _) => .halted halt
  | (.done report, session) => .done (reported h f o.output report session)

/-- Runs the cases asked for. Without any there is nothing to do. -/
def runCases (h : Host σ) (path : String) (f : Format) (o : RunOptions) : Ended (Outcome σ) :=
  match runSettings h path o with
  | .error message => .done (.failure message)
  | .ok s =>
    match selectedCases h o with
    | .error message => .done (.failure message)
    | .ok [] => .done (.success (.warning "No cases matched; nothing to run."))
    | .ok cases => runSelected h f o s cases

end Command

end PlainSteps
