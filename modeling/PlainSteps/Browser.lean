import PlainSteps.Action
import PlainSteps.Settings

/-!
# What is asked of a browser

* `Call` : a request to the browser or to its page. Element calls name a locator, and all calls but
  those on the whole browser a time limit in milliseconds, which the browser itself observes.
* `BrowserError` : what a call can fail with. After a fatal error no other call can succeed.
-/

namespace PlainSteps

/-- When a page counts as loaded. -/
inductive LoadState where
  | load
  | domContentLoaded
  | networkIdle
  deriving DecidableEq, Repr

/-- The word for a state of loading. -/
def LoadState.word : LoadState → String
  | load => "load"
  | domContentLoaded => "domcontentloaded"
  | networkIdle => "networkidle"

/-- How a browser is launched. -/
structure LaunchOptions where
  kind : BrowserKind
  headless : Bool
  viewport : Viewport
  deriving DecidableEq, Repr

/-- The options in the settings, as far as the environment allows. -/
def BrowserSettings.launchOptions (b : BrowserSettings) (env : Environment) : LaunchOptions where
  kind := b.kind
  headless := b.effectiveHeadless env
  viewport := b.viewport

/-- A request to the browser or to its page. -/
inductive Call where
  | launch (options : LaunchOptions)
  | openPage
  | close
  | goto (url : String) (loaded : LoadState) (timeout : Nat)
  | waitForLoad (loaded : LoadState) (timeout : Nat)
  | click (locator : String) (timeout : Nat)
  | fill (locator value : String) (timeout : Nat)
  /-- The visible text of an element, or the value of a form control. -/
  | readText (locator : String) (timeout : Nat)
  | waitFor (locator : String) (state : ElementState) (timeout : Nat)
  | screenshot (fullPage : Bool)
  deriving DecidableEq, Repr

namespace Call

def word : Call → String
  | launch _ => "launch"
  | openPage => "open_page"
  | close => "close"
  | goto _ _ _ => "goto"
  | waitForLoad _ _ => "wait_for_load"
  | click _ _ => "click"
  | fill _ _ _ => "fill"
  | readText _ _ => "read_text"
  | waitFor _ _ _ => "wait_for"
  | screenshot _ => "screenshot"

/-- What a request is about: an address, a state of loading, or a locator. -/
def subject : Call → String
  | launch _ | openPage | close => ""
  | goto url _ _ => url
  | waitForLoad state _ => state.word
  | click locator _ | fill locator _ _ | readText locator _ | waitFor locator _ _ => locator
  | screenshot _ => "page"

/-- The locator of a request about an element. -/
def locator? : Call → Option String
  | click locator _ | fill locator _ _ | readText locator _ | waitFor locator _ _ => some locator
  | _ => none

end Call

/-- What a request brings back. -/
inductive Value where
  | nothing
  | text (s : String)
  | image (bytes : List UInt8)
  deriving DecidableEq, Repr

def Value.textOr : Value → String
  | text s => s
  | _ => ""

def Value.bytes : Value → List UInt8
  | image bytes => bytes
  | _ => []

/-- What a request can fail with. -/
inductive BrowserError where
  | timeout (operation : String) (ms : Nat)
  | launch (reason : String)
  | navigation (url reason : String)
  | driver (reason : String)
  | disconnected
  | notInstalled (reason : String)
  | io (reason : String)
  | json (reason : String)
  deriving DecidableEq, Repr

namespace BrowserError

def message : BrowserError → String
  | timeout operation ms => "Timed out after " ++ toString ms ++ " ms: " ++ operation
  | launch reason => "Browser launch failed: " ++ reason
  | navigation url reason => "Navigation to " ++ url ++ " failed: " ++ reason
  | driver reason => "Driver error: " ++ reason
  | disconnected => "Browser driver is not running"
  | notInstalled reason => "Node.js or the playwright package was not found: " ++ reason
  | io reason => "IO error: " ++ reason
  | json reason => "JSON error: " ++ reason

def isTimeout : BrowserError → Bool
  | timeout _ _ => true
  | _ => false

def isFatal : BrowserError → Bool
  | disconnected | notInstalled _ => true
  | _ => false

end BrowserError

end PlainSteps
