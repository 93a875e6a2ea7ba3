import PlainSteps.Routine

/-!
# Logging in

* `Login.perform` : opens the login page, fills in user and password, submits, and waits for the page
  to settle. Each field uses the first of its locators that works.
* `RunError` : why a run does not get to its cases.
-/

namespace PlainSteps

/-- Why a run does not get to its cases, or not to all of them. -/
inductive RunError where
  | launch (e : BrowserError)
  | openPage (e : BrowserError)
  | login (reason : String)
  | navigation (url : String) (e : BrowserError)
  /-- The program broke down. -/
  | breakdown (text : String)
  deriving DecidableEq, Repr

def RunError.message : RunError → String
  | launch e => "Failed to start browser session: " ++ e.message
  | openPage e => "Failed to open page: " ++ e.message
  | login reason => "Authentication failed: " ++ reason
  | navigation url e => "Failed to open target " ++ url ++ ": " ++ e.message
  | breakdown text => "Run aborted unexpectedly: " ++ text

namespace Login

open Routine

/-- Makes a request for each locator in order until one works; tells whether one did. -/
def first (ask : String → Call) : List String → Routine Bool
  | [] => done false
  | l :: ls =>
    (request (ask l)).bind fun
      | .ok _ => done true
      | .error _ => first ask ls

/-- A stage of the login, and the rest of the login if the stage succeeds. -/
def stage (reason : String) (ask : String → Call) (locators : List String)
    (next : Routine (Except RunError Unit)) : Routine (Except RunError Unit) :=
  (first ask locators).bind fun worked =>
    if worked then next else done (.error (.login reason))

/-- Logs in. A page that does not settle after the login is no failure. -/
def perform (login : LoginSettings) (targetUrl : String) (navigationTimeout : Nat) :
    Routine (Except RunError Unit) :=
  let url := login.loginUrl.getD targetUrl
  (request (.goto url .domContentLoaded navigationTimeout)).bind fun
    | .error e => done (.error (.login ("could not open " ++ url ++ ": " ++ e.message)))
    | .ok _ =>
      stage "no username field matched" (.fill · login.username login.timeout)
        login.usernameLocators <|
      stage "no password field matched" (.fill · login.password login.timeout)
        login.passwordLocators <|
      stage "no submit control matched" (.click · login.timeout) login.submitLocators <|
      (request (.waitForLoad .networkIdle navigationTimeout)).bind fun _ => done (.ok ())

end Login

end PlainSteps
