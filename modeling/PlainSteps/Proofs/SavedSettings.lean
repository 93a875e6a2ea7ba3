import PlainSteps.Command.Settings
import PlainSteps.Proofs.ChosenSettings
import PlainSteps.Proofs.ExitCode
import PlainSteps.Proofs.PathNames
import PlainSteps.Proofs.TomlDocuments

/-!
# Saved settings are loaded again

`Command.load_after_save`: settings are saved whole or not at all. With an integer too large for a file
nothing is written; else a file is written from which the same settings are loaded, if they are valid, and
the reason why they are not otherwise. Only a usual pause that is not a number is left out, since its text
does not tell which one it is.

The table of settings can be written (`writable_fields`), so that its document is read as the same table in
the order of the document. In that order it is a file that sets all the fields (`Settings.whole`), and such a
file is read field by field.
-/

namespace PlainSteps

open Toml
open SectionField (setting)

namespace Toml

theorem writable_values {depth : Nat} {fields : List (String × Toml)} {ns : List String}
    (hnames : names fields = ns) (hbare : ns.Nodup ∧ ∀ name ∈ ns, isBare name.toList = true)
    (hplain : ∀ f ∈ fields, f.2.IsPlain) : Writable depth fields := by
  induction fields generalizing ns with
  | nil => exact .nil
  | cons f fields ih =>
    subst hnames
    obtain ⟨hdistinct, hbare⟩ := hbare
    obtain ⟨hfresh, hdistinct⟩ := List.nodup_cons.mp hdistinct
    obtain ⟨hname, hbare⟩ := List.forall_mem_cons.mp hbare
    obtain ⟨hv, hplain⟩ := List.forall_mem_cons.mp hplain
    exact .value hname hfresh hv (ih rfl ⟨hdistinct, hbare⟩ hplain)

theorem fits_strings (ss : List String) : (strings ss).fits = true := by
  rw [strings, fits]
  induction ss with
  | nil => rfl
  | cons s ss ih => rw [List.map_cons, fitsItems, fits, ih]; rfl

theorem fits_nat (n : Nat) : (nat n).fits = decide (n < 2 ^ 63) := by
  have hbound : (Nat.pow 2 63 : Int) = ((2 ^ 63 : Nat) : Int) := by rfl
  have hlow : -((2 ^ 63 : Nat) : Int) ≤ (n : Int) := by omega
  rw [nat, fits, isInteger, hbound, decide_eq_true hlow, Bool.true_and]
  exact decide_eq_decide.mpr Int.ofNat_lt

theorem fits_word64 (n : UInt64) : (nat n.toNat).fits = decide (n.toNat < 2 ^ 63) := fits_nat _

theorem fits_word32 (n : UInt32) : (nat n.toNat).fits = true := by
  have hlt := n.toNat_lt
  rw [fits_nat]
  exact decide_eq_true (by omega)

end Toml

namespace Settings

/-- The fields of the table of settings. -/
def fields (s : Settings) : List (String × Toml) :=
  match s.toToml with
  | .table fields => fields
  | _ => []

theorem toToml_fields (s : Settings) : s.toToml = .table s.fields := rfl

/-- The integers of settings that have 64 bits. -/
def longIntegers (s : Settings) : List UInt64 :=
  [s.login.timeoutMs, s.execution.caseTimeoutSecs, s.execution.candidateTimeoutMs,
    s.execution.waitTimeoutMs, s.execution.navigationTimeoutMs, s.execution.settleDelayMs,
    s.execution.maxConditionalDepth]

/-- All integers of the settings fit into a file, whose integers have a sign. -/
def Encodable (s : Settings) : Prop := ∀ n ∈ s.longIntegers, n.toNat < 2 ^ 63

instance (s : Settings) : Decidable s.Encodable :=
  List.decidableBAll (fun n : UInt64 => n.toNat < 2 ^ 63) s.longIntegers

theorem save?_isSome (s : Settings) : s.save?.isSome = true ↔ s.Encodable := by
  rw [save?, toToml_fields, document?_isSome]
  cases hurl : s.login.loginUrl <;>
    simp [fields, toToml, hurl, fitsFields, fits, fits_strings, fits_word32, fits_word64, Encodable,
      longIntegers]

/-! ## The table of settings -/

theorem writable_fields {s : Settings} (h : s.execution.defaultWaitSecs.isNaN = false) :
    Writable 2 s.fields := by
  refine .table (by decide) (by simp [names]) ?browser <| .table (by decide) (by simp [names]) ?login <|
    .table (by decide) (by simp [names]) ?evidence <| .table (by decide) (by simp [names]) ?execution <|
    .table (by decide) (by simp [names]) ?stopWords .nil
  case browser =>
    refine .value (by decide) (by simp [names]) trivial <| .value (by decide) (by simp [names]) trivial <|
      .table (by decide) (by simp [names]) ?viewport ?programs
    case viewport =>
      exact writable_values (rfl : _ = ["width", "height"]) (by decide) (by simp)
    case programs =>
      exact writable_values (rfl : _ = ["node_binary", "driver_dir"]) (by decide) (by simp)
  case login =>
    cases s.login.loginUrl with
    | none =>
      exact writable_values (rfl : _ = ["enabled", "username", "password", "username_locators",
        "password_locators", "submit_locators", "timeout_ms"]) (by decide)
        (by simp)
    | some url =>
      exact writable_values (rfl : _ = ["enabled", "login_url", "username", "password", "username_locators",
        "password_locators", "submit_locators", "timeout_ms"]) (by decide)
        (by simp)
  case evidence =>
    exact writable_values (rfl : _ = ["capture_screenshots", "capture_network", "output_dir"]) (by decide)
      (by simp)
  case execution =>
    exact writable_values (rfl : _ = ["case_timeout_secs", "candidate_timeout_ms", "wait_timeout_ms",
      "navigation_timeout_ms", "settle_delay_ms", "max_conditional_depth", "default_wait_secs"]) (by decide)
      (by simp [h])
  case stopWords =>
    exact writable_values (rfl : _ = ["click", "fill", "verify", "store", "wait"]) (by decide)
      (by simp)

/-- The settings as a file that sets all the fields, in the order of a document. -/
def whole (s : Settings) : Chosen SettingsField where
  fields := [
    .browser {
      fields := [
        .kind s.browser.kind, .headless s.browser.headless, .nodeBinary s.browser.nodeBinary,
        .driverDir s.browser.driverDir,
        .viewport {
          fields := [.width s.browser.viewport.width, .height s.browser.viewport.height]
          distinct := (by decide : ["width", "height"].Nodup) }]
      distinct := (by decide : ["type", "headless", "node_binary", "driver_dir", "viewport"].Nodup) },
    .login {
      fields := .enabled s.login.enabled :: ((s.login.loginUrl.map (LoginField.loginUrl .snake)).toList ++ [
        .username s.login.username, .password s.login.password, .usernameLocators s.login.usernameLocators,
        .passwordLocators s.login.passwordLocators, .submitLocators s.login.submitLocators,
        .timeoutMs s.login.timeoutMs])
      distinct := by cases s.login.loginUrl <;> simp [setting] },
    .evidence {
      fields := [
        .captureScreenshots s.evidence.captureScreenshots, .captureNetwork s.evidence.captureNetwork,
        .outputDir s.evidence.outputDir]
      distinct := (by decide : ["capture_screenshots", "capture_network", "output_dir"].Nodup) },
    .execution {
      fields := [
        .caseTimeoutSecs s.execution.caseTimeoutSecs, .candidateTimeoutMs s.execution.candidateTimeoutMs,
        .waitTimeoutMs s.execution.waitTimeoutMs, .navigationTimeoutMs s.execution.navigationTimeoutMs,
        .settleDelayMs s.execution.settleDelayMs, .maxConditionalDepth s.execution.maxConditionalDepth,
        .defaultWaitSecs (.float s.execution.defaultWaitSecs)]
      distinct := (by decide : ["case_timeout_secs", "candidate_timeout_ms", "wait_timeout_ms",
        "navigation_timeout_ms", "settle_delay_ms", "max_conditional_depth", "default_wait_secs"].Nodup) },
    .stopWords {
      fields := [
        .click s.stopWords.click, .fill s.stopWords.fill, .verify s.stopWords.verify,
        .store s.stopWords.store, .wait s.stopWords.wait]
      distinct := (by decide : ["click", "fill", "verify", "store", "wait"].Nodup) }]
  distinct := (by decide : ["browser", "authentication", "evidence", "execution", "resolver"].Nodup)

theorem toToml_whole (s : Settings) : s.whole.toToml = .table (arranged s.fields) := by
  cases hurl : s.login.loginUrl <;>
    simp [whole, Chosen.toToml, Chosen.settings, entries, setting, fields, toToml, hurl, arranged, ownValues,
      ownTables, nat, strings, Seconds.toToml, LoginUrlName.text]

theorem whole_over (s : Settings) : s.whole.over {} = s := by
  obtain ⟨browser, ⟨enabled, loginUrl, _, _, _, _, _, _⟩, evidence, execution, stopWords⟩ := s
  cases loginUrl <;> rfl

theorem viewportWhole_whole (s : Settings) : s.whole.ViewportWhole := by
  simp [Chosen.ViewportWhole, whole, Chosen.Whole]

/-- The settings that are saved are read from their document. -/
theorem load_save {s : Settings} (h : s.execution.defaultWaitSecs.isNaN = false) {text : String}
    (htext : s.save? = some text) :
    load (some text) = match s.validate with
      | .error e => .error (.invalid e)
      | .ok () => .ok s := by
  have hread : Toml.read? text = some s.whole.toToml := by
    rw [toToml_whole]
    exact read?_document (writable_fields h) (by decide) htext
  have hfields : ofToml? s.whole.toToml = some s := by
    rw [ofToml?_chosen s.viewportWhole_whole, whole_over]
  rewrite [load, parse, hread, Option.bind_some, hfields]
  rfl

end Settings

namespace Command

variable {σ : Type}

/-- The surroundings once files are written. -/
def Host.after (h : Host σ) (writes : List (String × String)) : Host σ :=
  writes.foldl (fun h w => { h with look := fun path => if path = w.1 then .file w.2 else h.look path }) h

/-- Saving settings at a path that can be written: with an integer too large for a file everything stays as
it was, and else the same settings are loaded from there, or the reason why they are not valid. -/
theorem load_after_save (h : Host σ) (path : String) (s : Settings)
    (hnan : s.execution.defaultWaitSecs.isNaN = false) (hpath : h.mayWrite path = .ok ()) :
    let saved := saveSettings h path s
    (¬s.Encodable → saved.1 = .error .tooLarge ∧ h.after saved.2 = h) ∧
    (s.Encodable → saved.1 = .ok () ∧
      loadSettings (h.after saved.2) path = match s.validate with
        | .error e => .error (SettingsError.invalid e).message
        | .ok () => .ok s) := by
  intro saved
  constructor
  · intro hlarge
    have hnone : s.save? = none := by
      rwa [← s.save?_isSome, Option.not_isSome_iff_eq_none] at hlarge
    have hsaved : saved = (.error .tooLarge, []) := by
      simp only [saved, saveSettings, hnone]
    rw [hsaved]
    exact ⟨rfl, rfl⟩
  · intro hfits
    obtain ⟨text, htext⟩ := Option.isSome_iff_exists.mp (s.save?_isSome.mpr hfits)
    have hsaved : saved = (.ok (), [(path, text)]) := by
      simp only [saved, saveSettings, htext, hpath]
    have hread : (h.after [(path, text)]).read path = .ok (some text) := by
      simp [Host.after, Host.read]
    rw [hsaved]
    refine ⟨rfl, ?_⟩
    rw [loadSettings, hread]
    simp only [Settings.load_save hnan htext]
    cases s.validate <;> rfl

/-- Surroundings with a file at the path of the settings. -/
def Host.configured : Host (List Nat) :=
  { Host.bare with look := fun path => if path = "conf/stepwise.toml" then .file "[browser]\n" else .nothing }

/-- Settings with quotes, line ends and controls in their texts, and a pause that no short decimal tells
exactly. -/
def quoted : Settings where
  browser := { driverDir := "C:\\treiber\\" }
  login := { enabled := true, loginUrl := some "/in?\"a\"", username := "größe", password := "'''\n\"\"\"\x00" }
  execution := { defaultWaitSecs := ⟨0x3FB999999999999A⟩ }
  stopWords := { StopWords.usual with wait := ["]", "# no"] }

/-- Such settings are loaded again, without time for cases they are refused, and with a timeout too large for
a file the old one stays. -/
theorem load_after_save_quoted :
    let path := "conf/stepwise.toml"
    let save := saveSettings Host.configured path
    let untimed := { quoted with execution := { quoted.execution with caseTimeoutSecs := 0 } }
    let large := { quoted with login := { quoted.login with timeoutMs := 0xFFFFFFFFFFFFFFFF } }
    Host.configured.mayWrite path = .ok () ∧ quoted.execution.defaultWaitSecs.isNaN = false ∧
      ((save quoted).1 = .ok () ∧ loadSettings (Host.configured.after (save quoted).2) path = .ok quoted) ∧
      ((save untimed).1 = .ok () ∧ loadSettings (Host.configured.after (save untimed).2) path =
        .error "Invalid configuration: execution.case_timeout_secs must be positive") ∧
      (save large).1 = .error .tooLarge ∧ Host.configured.after (save large).2 = Host.configured := by
  intro path save untimed large
  have hpath : Host.configured.mayWrite path = .ok () := by
    have habove : Path.above path = ["conf"] := by
      rw [Path.above, Path.splitOn_slash]
      decide +kernel
    have hfile : Host.configured.isFile "conf" = false := by decide
    have hlook : Host.configured.look path = .file "[browser]\n" := rfl
    have hslash : (path.toList.getLast? == some '/') = false := by decide
    simp [Host.mayWrite, habove, hfile, hlook, hslash]
  have hquoted : quoted.Encodable := by decide
  have huntimed : untimed.Encodable := by decide
  have hlarge : ¬large.Encodable := by decide
  refine ⟨hpath, by decide, ?_, ?_, ?_⟩
  · exact (load_after_save Host.configured path quoted (by decide) hpath).2 hquoted
  · exact (load_after_save Host.configured path untimed (by decide) hpath).2 huntimed
  · exact (load_after_save Host.configured path large (by decide) hpath).1 hlarge

end Command

end PlainSteps
