import PlainSteps.CaseRun
import PlainSteps.Login

/-!
# A run

* `Run.setUp` : opens a page, logs in if that is wanted, and opens the page under test.
* `Run.runCases` : the cases in order; a case that fails does not keep the others from being run.
* `Run.execute` : a whole run: launches a browser, sets up, runs the cases, and closes the browser
  whatever happened.
-/

namespace PlainSteps

/-- What a run is asked to do. -/
structure Run where
  runId : String
  settings : Settings
  targetUrl : String
  /-- How the browser is launched. -/
  launch : LaunchOptions
  resolve : Resolver

namespace Run

open Routine

variable {σ : Type}

/-- Opens a page, logs in if that is wanted, and opens the page under test. -/
def setUp (r : Run) : Routine (Except RunError Unit) :=
  let timeout := r.settings.execution.navigationTimeout
  (request .openPage).bind fun
    | .error e => done (.error (.openPage e))
    | .ok _ =>
      let login : Routine (Except RunError Unit) :=
        if r.settings.login.enabled then Login.perform r.settings.login r.targetUrl timeout
        else done (.ok ())
      login.bind fun
        | .error e => done (.error e)
        | .ok () =>
          (request (.goto r.targetUrl .domContentLoaded timeout)).bind fun
            | .error e => done (.error (.navigation r.targetUrl e))
            | .ok _ => done (.ok ())

/-- Runs the cases in order: their results, why the run halted if it did, and the session
afterwards. -/
def runCases (x : CaseRunner) (w : World σ) :
    List TestCase → Session σ → List CaseResult × Option Halt × Session σ
  | [], s => ([], none, s)
  | c :: cs, s =>
    match CaseRun.run x w c s with
    | (.halted h, s) => ([], some h, s)
    | (.done result, s) =>
      let (results, halt, s) := runCases x w cs s
      (result :: results, halt, s)

/-- What comes of setting up and running the cases: results, an error, or a halt that nothing can be
done about. -/
def inside (r : Run) (w : World σ) (cases : List TestCase) (s : Session σ) :
    Ended (List CaseResult × Option RunError) × Session σ :=
  match (setUp r).run w none s with
  | (.halted (.breakdown b), s) => (.done ([], some (.breakdown b.text)), s)
  | (.halted h, s) => (.halted h, s)
  | (.done (.error e), s) => (.done ([], some e), s)
  | (.done (.ok ()), s) =>
    let x := CaseRunner.ofSettings r.settings r.resolve r.runId r.targetUrl
    match runCases x w cases s with
    | (results, some (.breakdown b), s) => (.done (results, some (.breakdown b.text)), s)
    | (_, some h, s) => (.halted h, s)
    | (results, none, s) => (.done (results, none), s)

/-- The whole run. Once the browser is launched it is closed again, and an error in closing it does
not matter. -/
def execute (r : Run) (w : World σ) (cases : List TestCase) (s : Session σ) :
    Ended RunReport × Session σ :=
  let report (results : List CaseResult) (error : Option RunError) (t : Session σ) : RunReport :=
    .ofCases r.runId r.targetUrl results (error.map (·.message)) (s.moment w) (t.moment w)
      (t.now - s.now)
  match (request (.launch r.launch)).run w none s with
  | (.halted h, s) => (.halted h, s)
  | (.done (.error e), t) => (.done (report [] (some (.launch e)) t), t)
  | (.done (.ok _), t) =>
    match inside r w cases t with
    | (.halted h, t) => (.halted h, t)
    | (.done (results, error), t) =>
      match (request .close).run w none t with
      | (.halted h, t) => (.halted h, t)
      | (.done _, t) => (.done (report results error t), t)

end Run

end PlainSteps
