import PlainSteps.Settings
import PlainSteps.Toml.Reader
import PlainSteps.Toml.Writer

/-!
# The settings file

* `Settings.ofToml?` and `Settings.toToml` : settings as a table. Every field may be missing and has
  its usual value then; other fields are passed over.
* `Settings.load` : the settings that a file holds; without a file they are the usual ones.
* `Settings.save?` : the text of a file that holds the settings.
-/

namespace PlainSteps

/-- What can go wrong with a settings file. -/
inductive SettingsError where
  /-- The text is no table of settings. -/
  | malformed
  | invalid (e : InvalidSetting)
  deriving DecidableEq, Repr

namespace Settings

/-! ## Reading -/

/-- A section: its fields by name, or the list of its values in their order. -/
def section? (names : List String) : Toml → Option (List (String × Toml))
  | .table fields => some fields
  | .array items => some (names.zip items)
  | _ => none

/-- A field, read by `read`, with its usual value if it is missing. -/
def fieldOr {α : Type} (fields : List (String × Toml)) (name : String) (usual : α)
    (read : Toml → Option α) : Option α :=
  match Toml.lookup? name fields with
  | none => some usual
  | some v => read v

def text? : Toml → Option String
  | .string s => some s
  | _ => none

def flag? : Toml → Option Bool
  | .boolean b => some b
  | _ => none

def word32? : Toml → Option UInt32
  | .integer n => if 0 ≤ n && n.toNat < Nat.pow 2 32 then some (UInt32.ofNat n.toNat) else none
  | _ => none

def word64? : Toml → Option UInt64
  | .integer n => if 0 ≤ n && n.toNat < Nat.pow 2 64 then some (UInt64.ofNat n.toNat) else none
  | _ => none

/-- A double, which may be written as an integer. -/
def double? : Toml → Option Number.Binary64
  | .float x => some x
  | .integer n => some (.ofInt n)
  | _ => none

def texts? : Toml → Option (List String)
  | .array items => items.mapM text?
  | _ => none

/-- The kind of browser: its name, or a table whose one field has that name and holds nothing. -/
def kind? : Toml → Option BrowserKind
  | .string s => BrowserKind.ofName? s
  | .table [(name, .table [])] | .table [(name, .array [])] => BrowserKind.ofName? name
  | _ => none

/-- The size of the page; here no field may be missing. -/
def viewport? (v : Toml) : Option Viewport := do
  let fields ← section? ["width", "height"] v
  some {
    width := ← word32? (← Toml.lookup? "width" fields)
    height := ← word32? (← Toml.lookup? "height" fields) }

def browser? (v : Toml) : Option BrowserSettings := do
  let fields ← section? ["type", "headless", "viewport", "node_binary", "driver_dir"] v
  let usual : BrowserSettings := {}
  some {
    kind := ← fieldOr fields "type" usual.kind kind?
    headless := ← fieldOr fields "headless" usual.headless flag?
    viewport := ← fieldOr fields "viewport" usual.viewport viewport?
    nodeBinary := ← fieldOr fields "node_binary" usual.nodeBinary text?
    driverDir := ← fieldOr fields "driver_dir" usual.driverDir text? }

/-- The login page, which has two names; both at once are refused. -/
def loginUrl? (fields : List (String × Toml)) : Option (Option String) :=
  match Toml.lookup? "login_url" fields, Toml.lookup? "loginUrl" fields with
  | none, none => some none
  | some v, none | none, some v => (text? v).map some
  | some _, some _ => none

def login? (v : Toml) : Option LoginSettings := do
  let fields ← section? ["enabled", "login_url", "username", "password", "username_locators",
    "password_locators", "submit_locators", "timeout_ms"] v
  let usual : LoginSettings := {}
  some {
    enabled := ← fieldOr fields "enabled" usual.enabled flag?
    loginUrl := ← loginUrl? fields
    username := ← fieldOr fields "username" usual.username text?
    password := ← fieldOr fields "password" usual.password text?
    usernameLocators := ← fieldOr fields "username_locators" usual.usernameLocators texts?
    passwordLocators := ← fieldOr fields "password_locators" usual.passwordLocators texts?
    submitLocators := ← fieldOr fields "submit_locators" usual.submitLocators texts?
    timeoutMs := ← fieldOr fields "timeout_ms" usual.timeoutMs word64? }

def evidence? (v : Toml) : Option EvidenceSettings := do
  let fields ← section? ["capture_screenshots", "capture_network", "output_dir"] v
  let usual : EvidenceSettings := {}
  some {
    captureScreenshots := ← fieldOr fields "capture_screenshots" usual.captureScreenshots flag?
    captureNetwork := ← fieldOr fields "capture_network" usual.captureNetwork flag?
    outputDir := ← fieldOr fields "output_dir" usual.outputDir text? }

def execution? (v : Toml) : Option ExecutionSettings := do
  let fields ← section? ["case_timeout_secs", "candidate_timeout_ms", "wait_timeout_ms",
    "navigation_timeout_ms", "settle_delay_ms", "max_conditional_depth", "default_wait_secs"] v
  let usual : ExecutionSettings := {}
  some {
    caseTimeoutSecs := ← fieldOr fields "case_timeout_secs" usual.caseTimeoutSecs word64?
    candidateTimeoutMs := ← fieldOr fields "candidate_timeout_ms" usual.candidateTimeoutMs word64?
    waitTimeoutMs := ← fieldOr fields "wait_timeout_ms" usual.waitTimeoutMs word64?
    navigationTimeoutMs :=
      ← fieldOr fields "navigation_timeout_ms" usual.navigationTimeoutMs word64?
    settleDelayMs := ← fieldOr fields "settle_delay_ms" usual.settleDelayMs word64?
    maxConditionalDepth :=
      ← fieldOr fields "max_conditional_depth" usual.maxConditionalDepth word64?
    defaultWaitSecs := ← fieldOr fields "default_wait_secs" usual.defaultWaitSecs double? }

def stopWords? (v : Toml) : Option StopWords := do
  let fields ← section? ["click", "fill", "verify", "store", "wait"] v
  let usual := StopWords.usual
  some {
    click := ← fieldOr fields "click" usual.click texts?
    fill := ← fieldOr fields "fill" usual.fill texts?
    verify := ← fieldOr fields "verify" usual.verify texts?
    store := ← fieldOr fields "store" usual.store texts?
    wait := ← fieldOr fields "wait" usual.wait texts? }

def ofToml? (v : Toml) : Option Settings := do
  let fields ← section? ["browser", "authentication", "evidence", "execution", "resolver"] v
  some {
    browser := ← fieldOr fields "browser" {} browser?
    login := ← fieldOr fields "authentication" {} login?
    evidence := ← fieldOr fields "evidence" {} evidence?
    execution := ← fieldOr fields "execution" {} execution?
    stopWords := ← fieldOr fields "resolver" .usual stopWords? }

/-! ## Writing -/

/-- The settings as a table; a login page that is not set has no field. -/
def toToml (s : Settings) : Toml :=
  .table [
    ("browser", .table [
      ("type", .string s.browser.kind.name),
      ("headless", .boolean s.browser.headless),
      ("viewport", .table [
        ("width", .nat s.browser.viewport.width.toNat),
        ("height", .nat s.browser.viewport.height.toNat)]),
      ("node_binary", .string s.browser.nodeBinary),
      ("driver_dir", .string s.browser.driverDir)]),
    ("authentication", .table (
      [("enabled", .boolean s.login.enabled)] ++
      (match s.login.loginUrl with
        | some url => [("login_url", .string url)]
        | none => []) ++
      [("username", .string s.login.username),
      ("password", .string s.login.password),
      ("username_locators", .strings s.login.usernameLocators),
      ("password_locators", .strings s.login.passwordLocators),
      ("submit_locators", .strings s.login.submitLocators),
      ("timeout_ms", .nat s.login.timeoutMs.toNat)])),
    ("evidence", .table [
      ("capture_screenshots", .boolean s.evidence.captureScreenshots),
      ("capture_network", .boolean s.evidence.captureNetwork),
      ("output_dir", .string s.evidence.outputDir)]),
    ("execution", .table [
      ("case_timeout_secs", .nat s.execution.caseTimeoutSecs.toNat),
      ("candidate_timeout_ms", .nat s.execution.candidateTimeoutMs.toNat),
      ("wait_timeout_ms", .nat s.execution.waitTimeoutMs.toNat),
      ("navigation_timeout_ms", .nat s.execution.navigationTimeoutMs.toNat),
      ("settle_delay_ms", .nat s.execution.settleDelayMs.toNat),
      ("max_conditional_depth", .nat s.execution.maxConditionalDepth.toNat),
      ("default_wait_secs", .float s.execution.defaultWaitSecs)]),
    ("resolver", .table [
      ("click", .strings s.stopWords.click),
      ("fill", .strings s.stopWords.fill),
      ("verify", .strings s.stopWords.verify),
      ("store", .strings s.stopWords.store),
      ("wait", .strings s.stopWords.wait)])]

/-! ## Files -/

def parse (text : String) : Except SettingsError Settings :=
  match (Toml.read? text).bind ofToml? with
  | none => .error .malformed
  | some s =>
    match s.validate with
    | .error e => .error (.invalid e)
    | .ok () => .ok s

/-- The settings that a file holds; without a file they are the usual ones. -/
def load (file : Option String) : Except SettingsError Settings :=
  match file with
  | none => .ok {}
  | some text => parse text

/-- The text of a file that holds the settings; `none` if a number is too large for it. -/
def save? (s : Settings) : Option String :=
  s.toToml.document?

end Settings

end PlainSteps
