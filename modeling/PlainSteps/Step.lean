import PlainSteps.Address
import PlainSteps.Evidence
import PlainSteps.Locator
import PlainSteps.Result
import PlainSteps.Routine
import PlainSteps.Variables

/-!
# Carrying out a step

* `Step.attempts` : the locators of a target, tried one after the other until one works.
* `Step.present` : a check or wait on the first locator of a target.
* `Step.perform` : what an action does; only a store changes the variables.
* `Step.close` : what follows each step: a screenshot, if wanted, and a rest.
-/

namespace PlainSteps

/-- Why a step failed. -/
inductive StepError where
  /-- No locator worked; the hint is shown as the author wrote it. -/
  | notFound (verb hint : String)
  | timeout (operation : String) (ms : Nat)
  | browser (reason : String)
  deriving DecidableEq, Repr

namespace StepError

def message : StepError → String
  | notFound verb hint => "Could not find element to " ++ verb ++ ": " ++ hint
  | timeout operation ms => "Timed out after " ++ toString ms ++ " ms " ++ operation
  | browser reason => "Browser error: " ++ reason

/-- An error of the browser as the error of a step. -/
def ofBrowser : BrowserError → StepError
  | .timeout operation ms => timeout operation ms
  | e => browser e.message

/-- The error of a step whose target was not found. -/
def missing (kind : ActionKind) (target : Target) : StepError :=
  notFound kind.verb target.display

/-- An error on an element: unless it is fatal, the element was not found. -/
def onElement (kind : ActionKind) (target : Target) (e : BrowserError) : StepError :=
  if e.isFatal then browser e.message else missing kind target

/-- An error of a wait for an element, which names the wait when the time was over. -/
def onWait (operation : String) : BrowserError → StepError
  | .timeout _ ms => timeout operation ms
  | e => ofBrowser e

end StepError

/-- How an action ended. -/
inductive Verdict where
  | done
  | skipped (note : StepNote)
  | failed (e : StepError)
  deriving DecidableEq, Repr

namespace Step

open Routine

/-- What the steps of a case have in common. -/
structure Context where
  resolve : Resolver
  execution : ExecutionSettings
  /-- The page that relative addresses refer to. -/
  baseUrl : String
  /-- Where screenshots go, if they are wanted. -/
  evidence : Option String

/-! ## Targets -/

/-- The locators of a target and the time for each: an explicit one has the time of a wait. -/
def locators (x : Context) (kind : ActionKind) : Target → List String × Nat
  | .explicit locator => ([locator], x.execution.waitTimeout)
  | .implied hint => (x.resolve hint kind, x.execution.candidateTimeout)

theorem locators_explicit (x : Context) (kind : ActionKind) (locator : String) :
    locators x kind (.explicit locator) = ([locator], x.execution.waitTimeout) :=
  rfl

theorem locators_implied (x : Context) (kind : ActionKind) (hint : String) :
    locators x kind (.implied hint) = (x.resolve hint kind, x.execution.candidateTimeout) :=
  rfl

/-- Tries locators in order until one works or an error is fatal. -/
def attempts (kind : ActionKind) (target : Target) (timeout : Nat) (ask : String → Call) :
    List String → Routine (Except StepError Value)
  | [] => done (.error (.missing kind target))
  | l :: ls =>
    (bounded (kind.verb ++ " " ++ l) timeout (ask l)).bind fun
      | .ok v => done (.ok v)
      | .error e => if e.isFatal then done (.error (.browser e.message)) else
          attempts kind target timeout ask ls

/-- Tries the locators of a target. The request is made for a locator and its time. -/
def onTarget (x : Context) (kind : ActionKind) (target : Target) (ask : String → Nat → Call) :
    Routine (Except StepError Value) :=
  let (ls, timeout) := locators x kind target
  attempts kind target timeout (ask · timeout) ls

/-- The one locator used for a check. -/
def firstLocator? (x : Context) (kind : ActionKind) (target : Target) : Option String :=
  (locators x kind target).1.head?

/-- Waits for a target to be in a state, with the error that `explain` gives. -/
def present (x : Context) (kind : ActionKind) (target : Target) (state : ElementState)
    (operation : String) (explain : BrowserError → StepError) : Routine Verdict :=
  match firstLocator? x kind target with
  | none => done (.failed (.missing kind target))
  | some l =>
    let timeout := x.execution.waitTimeout
    (bounded operation timeout (.waitFor l state timeout)).bind fun
      | .ok _ => done .done
      | .error e => done (.failed (explain e))

/-- Whether the condition of a step holds. Any error means that it does not. -/
def probe (x : Context) (target : Target) (state : ElementState) : Routine Bool :=
  match firstLocator? x .conditional target with
  | none => done false
  | some l =>
    let timeout := x.execution.candidateTimeout
    (bounded ("probe " ++ l) timeout (.waitFor l state timeout)).bind fun
      | .ok _ => done true
      | .error _ => done false

/-! ## Pauses -/

def nanosPerSecond : Nat := 1000000000

/-- The length of a pause in milliseconds: seconds to the nearest nanosecond, rounded up to whole
milliseconds. A pause must not be negative, and must be shorter than 2 ^ 64 seconds. -/
def pauseMs? (seconds : Number.Binary64) : Option Nat :=
  match seconds.parts? with
  | none => none
  | some p =>
    if p.mantissa = 0 then some 0
    else if p.negative then none
    else
      let (n, d) : Nat × Nat :=
        if 0 ≤ p.exponent then (p.mantissa * Nat.pow 2 p.exponent.toNat, 1)
        else (p.mantissa, Nat.pow 2 (-p.exponent).toNat)
      if d * Nat.pow 2 64 ≤ n then none
      else
        let nanos := Number.divNearest (n * nanosPerSecond) d
        some ((nanos + 999999) / 1000000)

/-! ## Actions -/

/-- A request that is a step of its own. -/
def whole (operation : String) (timeout : Nat) (c : Call) : Routine Verdict :=
  (bounded operation timeout c).bind fun
    | .ok _ => done .done
    | .error e => done (.failed (.ofBrowser e))

/-- A request to one of the locators of a target. -/
def element (x : Context) (kind : ActionKind) (target : Target) (ask : String → Nat → Call) :
    Routine Verdict :=
  (onTarget x kind target ask).bind fun
    | .ok _ => done .done
    | .error e => done (.failed e)

/-- What an action does, with the variables afterwards. -/
def perform (x : Context) : Action → Variables → Routine (Verdict × Variables)
  | .navigate url, vars =>
    let url := Address.absolute x.baseUrl url
    let timeout := x.execution.navigationTimeout
    (whole ("navigating to " ++ url) timeout (.goto url .domContentLoaded timeout)).bind
      fun v => done (v, vars)
  | .click target, vars => (element x .click target .click).bind fun v => done (v, vars)
  | .fill value target, vars =>
    (element x .fill target fun l t => .fill l value t).bind fun v => done (v, vars)
  | .store source name, vars =>
    (onTarget x .store source .readText).bind fun
      | .ok v => done (.done, vars.set name v.textOr)
      | .error e => done (.failed e, vars)
  | .verify target, vars =>
    (present x .verify target .visible ("verify " ++ target.display)
      (.onElement .verify target)).bind fun v => done (v, vars)
  | .waitFor target state, vars =>
    let operation := "waiting for " ++ target.display ++ " to be " ++ state.word
    (present x .waitFor target state operation (.onWait operation)).bind fun v => done (v, vars)
  | .waitForLoad, vars =>
    let timeout := x.execution.navigationTimeout
    (whole "waiting for the page to load" timeout (.waitForLoad .load timeout)).bind
      fun v => done (v, vars)
  | .waitDuration seconds, vars =>
    match pauseMs? seconds with
    | some ms => pause ms (done (.done, vars))
    | none =>
      done (.failed (.browser ("invalid wait of " ++ Number.plain.text seconds ++ " seconds")), vars)
  | .conditional target condition consequence, vars =>
    (probe x target condition.state).bind fun holds =>
      if holds then perform x consequence vars else done (.skipped .conditionNotMet, vars)
  | .unknown _, vars => done (.skipped .unrecognized, vars)

/-! ## After the action -/

/-- Writes a screenshot; where that goes wrong there is none. -/
def keepScreenshot (folder : String) (index : Nat) (image : List UInt8) :
    Routine (Option Screenshot) :=
  let path := Evidence.file folder index
  save path image fun ok =>
    done (if ok then some ⟨path, image.length, Digest.hexDigest image⟩ else none)

/-- Takes a screenshot of the whole page and writes it; where that goes wrong there is none. -/
def takeScreenshot (folder : String) (index : Nat) : Routine (Option Screenshot) :=
  (request (.screenshot true)).bind fun
    | .error _ => done none
    | .ok v => keepScreenshot folder index v.bytes

/-- What follows each step. -/
def close (x : Context) (index : Nat) : Routine (Option Screenshot) :=
  let shot := match x.evidence with
    | some folder => takeScreenshot folder index
    | none => done none
  shot.bind fun s => (rest x.execution.settleDelay).bind fun _ => done s

end Step

/-! ## Results -/

/-- The result of a step that has begun and whose action ended so. -/
def StepResult.judged (s : StepResult) (v : Verdict) (now : Timestamp) (elapsed : Nat) :
    StepResult :=
  match v with
  | .done => s.finish .pass now elapsed
  | .skipped note => { s.finish .pass now elapsed with note := some note }
  | .failed e => { s.finish .fail now elapsed with error := some e.message }

end PlainSteps
