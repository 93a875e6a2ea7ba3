import PlainSteps.Locator

/-!
# Settings

* `Settings` : the sections of a configuration, each with its usual values.
* `Settings.validate` : what a configuration must not hold.
* `Settings.withEnvironment` : the choices that environment variables override.
* `BrowserSettings.effectiveHeadless` : whether the browser runs without a window, which it does
  wherever no window can be shown.

Timeouts are kept as they are written, in seconds or milliseconds; the functions in `Pacing` give
them all in milliseconds.
-/

namespace PlainSteps

open Text

/-- The browsers that can be driven. -/
inductive BrowserKind where
  | chromium
  | firefox
  deriving DecidableEq, Repr, Inhabited

def BrowserKind.name : BrowserKind → String
  | chromium => "chromium"
  | firefox => "firefox"

def BrowserKind.ofName? (s : String) : Option BrowserKind :=
  [BrowserKind.chromium, .firefox].find? (·.name == s)

/-- What makes a configuration unusable. -/
inductive InvalidSetting where
  | unsupportedBrowser (name : String)
  | loginWithoutUsername
  | noCaseTimeout
  deriving DecidableEq, Repr

def InvalidSetting.reason : InvalidSetting → String
  | unsupportedBrowser name => "unsupported browser type: " ++ name
  | loginWithoutUsername => "authentication.enabled requires a username"
  | noCaseTimeout => "execution.case_timeout_secs must be positive"

def InvalidSetting.message (e : InvalidSetting) : String :=
  "Invalid configuration: " ++ e.reason

/-- Reads the name of a browser as a user writes it: in any letter case, with blanks around it, and
with a common alias. -/
def BrowserKind.parse (s : String) : Except InvalidSetting BrowserKind :=
  let name := lowered (trim s)
  if name == "chromium" || name == "chrome" then .ok .chromium
  else if name == "firefox" then .ok .firefox
  else .error (.unsupportedBrowser name)

/-! ## Sections -/

/-- The size of the page. -/
structure Viewport where
  width : UInt32 := 1280
  height : UInt32 := 720
  deriving DecidableEq, Repr

/-- How the browser is started. -/
structure BrowserSettings where
  kind : BrowserKind := .chromium
  /-- Whether a window is unwanted. -/
  headless : Bool := true
  viewport : Viewport := {}
  /-- The program that runs the browser's driver. -/
  nodeBinary : String := "node"
  /-- Where the driver's package is looked for. -/
  driverDir : String := "."
  deriving DecidableEq, Repr

/-- How to log in before the first case. -/
structure LoginSettings where
  enabled : Bool := false
  /-- The login page; without one it is the page under test. -/
  loginUrl : Option String := none
  username : String := ""
  password : String := ""
  usernameLocators : List String :=
    ["input[name=\"username\"]", "input[name=\"email\"]", "input[type=\"email\"]", "#username",
      "#email", "input[autocomplete=\"username\"]"]
  passwordLocators : List String :=
    ["input[name=\"password\"]", "input[type=\"password\"]", "#password"]
  submitLocators : List String :=
    ["button[type=\"submit\"]", "input[type=\"submit\"]", "role=button[name=/log ?in|sign ?in/i]"]
  /-- Milliseconds for each locator. -/
  timeoutMs : UInt64 := 5000
  deriving DecidableEq, Repr

/-- What is recorded beside the results. -/
structure EvidenceSettings where
  captureScreenshots : Bool := true
  captureNetwork : Bool := false
  outputDir : String := "test-results/screenshots"
  deriving DecidableEq, Repr

/-- Timeouts and pauses. -/
structure ExecutionSettings where
  /-- Seconds for a whole case. -/
  caseTimeoutSecs : UInt64 := 300
  /-- Milliseconds for each locator of a hint. -/
  candidateTimeoutMs : UInt64 := 2000
  /-- Milliseconds for checks, waits, and locators of the author's. -/
  waitTimeoutMs : UInt64 := 10000
  navigationTimeoutMs : UInt64 := 30000
  /-- Milliseconds of rest after each step. -/
  settleDelayMs : UInt64 := 500
  /-- How deep conditional steps may nest. -/
  maxConditionalDepth : UInt64 := 3
  /-- Seconds of a pause without a length. -/
  defaultWaitSecs : Number.Binary64 := .ofInt 1
  deriving DecidableEq, Repr

def StopWords.usual : StopWords where
  click := ["click", "press", "tap", "on", "the", "button", "link", "icon"]
  fill := ["type", "enter", "fill", "into", "in", "the", "field", "input", "box", "textbox"]
  verify := ["verify", "check", "assert", "expect", "ensure", "confirm", "should", "see", "that",
    "the", "text", "is", "visible", "displayed", "present"]
  store := ["store", "the", "text", "value", "of", "from"]
  wait := ["wait", "for", "until", "the", "to", "be", "is"]

/-- A whole configuration. -/
structure Settings where
  browser : BrowserSettings := {}
  login : LoginSettings := {}
  evidence : EvidenceSettings := {}
  execution : ExecutionSettings := {}
  stopWords : StopWords := .usual
  deriving DecidableEq, Repr

/-! ## Times in milliseconds -/

namespace ExecutionSettings

/-- Milliseconds for a whole case. -/
def caseTimeout (e : ExecutionSettings) : Nat := 1000 * e.caseTimeoutSecs.toNat

/-- Milliseconds for each locator of a hint. -/
def candidateTimeout (e : ExecutionSettings) : Nat := e.candidateTimeoutMs.toNat

/-- Milliseconds for checks, waits, and locators of the author's. -/
def waitTimeout (e : ExecutionSettings) : Nat := e.waitTimeoutMs.toNat

/-- Milliseconds for navigation. -/
def navigationTimeout (e : ExecutionSettings) : Nat := e.navigationTimeoutMs.toNat

/-- Milliseconds of rest after each step. -/
def settleDelay (e : ExecutionSettings) : Nat := e.settleDelayMs.toNat

end ExecutionSettings

/-- Milliseconds for each locator of the login. -/
def LoginSettings.timeout (l : LoginSettings) : Nat := l.timeoutMs.toNat

/-! ## Checks and overrides -/

abbrev Environment := List (String × String)

def Environment.get? (env : Environment) (name : String) : Option String :=
  (env.find? (·.1 == name)).map (·.2)

/-- Whether a variable is set to something other than a negative. -/
def Environment.flag (env : Environment) (name : String) : Bool :=
  match env.get? name with
  | none => false
  | some v => !v.isEmpty && v != "0" && !sameIgnoringCase v "false"

/-- Whether no window can be shown: on a build server, without a display, or by demand. -/
def Environment.constrained (env : Environment) : Bool :=
  env.flag "STEPWISE_FORCE_HEADLESS" || env.flag "CI" ||
    ((env.get? "DISPLAY").isNone && (env.get? "WAYLAND_DISPLAY").isNone)

/-- Whether the browser runs without a window. -/
def BrowserSettings.effectiveHeadless (b : BrowserSettings) (env : Environment) : Bool :=
  b.headless || env.constrained

namespace Settings

/-- Refuses a login without a user and cases without time. -/
def validate (s : Settings) : Except InvalidSetting Unit :=
  if s.login.enabled && s.login.username.isEmpty then .error .loginWithoutUsername
  else if s.execution.caseTimeoutSecs == 0 then .error .noCaseTimeout
  else .ok ()

/-- The texts that turn the window off. -/
def affirmatives : List String := ["1", "true", "yes"]

/-- The settings with the browser and the window chosen by environment variables, if set. -/
def withEnvironment (s : Settings) (env : Environment) : Except InvalidSetting Settings := do
  let kind ← match env.get? "STEPWISE_BROWSER" with
    | none => .ok s.browser.kind
    | some name => BrowserKind.parse name
  let headless := match env.get? "STEPWISE_HEADLESS" with
    | none => s.browser.headless
    | some v => affirmatives.contains v
  .ok { s with browser := { s.browser with kind, headless } }

/-- Whether two configurations say the same, the usual pause being compared as a number. -/
def agrees (s t : Settings) : Bool :=
  s.execution.defaultWaitSecs.sameNumber t.execution.defaultWaitSecs &&
    decide ({ s with execution := { s.execution with defaultWaitSecs := .zero } } =
      { t with execution := { t.execution with defaultWaitSecs := .zero } })

end Settings

end PlainSteps
