import PlainSteps.Json
import PlainSteps.Settings

/-!
# Settings as a record

* `Settings.toJson` : the settings as a JSON record with all fields.
* `Settings.masked` : the settings without the password.
-/

namespace PlainSteps.Settings

/-- The settings as a record; a login page that is not set is null. -/
def toJson (s : Settings) : Json :=
  .object [
    ("browser", .object [
      ("type", .string s.browser.kind.name),
      ("headless", .bool s.browser.headless),
      ("viewport", .object [
        ("width", .nat s.browser.viewport.width.toNat),
        ("height", .nat s.browser.viewport.height.toNat)]),
      ("node_binary", .string s.browser.nodeBinary),
      ("driver_dir", .string s.browser.driverDir)]),
    ("authentication", .object [
      ("enabled", .bool s.login.enabled),
      ("login_url", s.login.loginUrl.elim .null .string),
      ("username", .string s.login.username),
      ("password", .string s.login.password),
      ("username_locators", .strings s.login.usernameLocators),
      ("password_locators", .strings s.login.passwordLocators),
      ("submit_locators", .strings s.login.submitLocators),
      ("timeout_ms", .nat s.login.timeoutMs.toNat)]),
    ("evidence", .object [
      ("capture_screenshots", .bool s.evidence.captureScreenshots),
      ("capture_network", .bool s.evidence.captureNetwork),
      ("output_dir", .string s.evidence.outputDir)]),
    ("execution", .object [
      ("case_timeout_secs", .nat s.execution.caseTimeoutSecs.toNat),
      ("candidate_timeout_ms", .nat s.execution.candidateTimeoutMs.toNat),
      ("wait_timeout_ms", .nat s.execution.waitTimeoutMs.toNat),
      ("navigation_timeout_ms", .nat s.execution.navigationTimeoutMs.toNat),
      ("settle_delay_ms", .nat s.execution.settleDelayMs.toNat),
      ("max_conditional_depth", .nat s.execution.maxConditionalDepth.toNat),
      ("default_wait_secs", .number (.double s.execution.defaultWaitSecs))]),
    ("resolver", .object [
      ("click", .strings s.stopWords.click),
      ("fill", .strings s.stopWords.fill),
      ("verify", .strings s.stopWords.verify),
      ("store", .strings s.stopWords.store),
      ("wait", .strings s.stopWords.wait)])]

/-- What is shown in place of a password. -/
def passwordMask : String := "********"

/-- The settings with a mask in place of the password, if there is one. -/
def masked (s : Settings) : Settings :=
  if s.login.password.isEmpty then s
  else { s with login := { s.login with password := passwordMask } }

end PlainSteps.Settings
