import PlainSteps.Command.Host
import PlainSteps.Settings.File
import PlainSteps.Settings.Record

/-!
# The commands on settings

* `loadSettings` : the settings in the file of a path, or why there are none.
* `saveSettings` : writes the file that holds given settings, or says why it cannot be written.
* `showSettings` : prints the settings in effect, without the password.
* `initSettings` : writes a file with the usual settings.
-/

namespace PlainSteps

/-- What is said of a text that is no table of settings. -/
def SettingsError.malformation : String := "the text is no table of settings"

def SettingsError.message : SettingsError → String
  | malformed => "TOML parse error: " ++ malformation
  | invalid e => e.message

namespace Command

/-- What is said of settings with an integer that is too large for a file. -/
def outOfRange : String := "out-of-range value for u64 type"

/-- Why settings are not saved. -/
inductive SaveFault where
  /-- An integer is too large for a file. -/
  | tooLarge
  | file (fault : FileFault)
  deriving DecidableEq, Repr

/-- The error in words, and its cause after it. -/
def SaveFault.message : SaveFault → String
  | tooLarge => "TOML encode error: " ++ outOfRange ++ ": " ++ outOfRange
  | file fault => fault.message

variable {σ : Type}

/-- The settings in the file at a path, or an error message. -/
def loadSettings (h : Host σ) (path : String) : Except String Settings :=
  match h.read path with
  | .error fault => .error fault.message
  | .ok file => (Settings.load file).mapError (·.message)

/-- Saves settings at a path: whether they are saved, and the files written. The text is made first,
so that without one no file is touched. -/
def saveSettings (h : Host σ) (path : String) (s : Settings) :
    Except SaveFault Unit × List (String × String) :=
  match s.save? with
  | none => (.error .tooLarge, [])
  | some text =>
    match h.mayWrite path with
    | .error fault => (.error (.file fault), [])
    | .ok () => (.ok (), [(path, text)])

/-- The settings as they are shown: the document of a settings file, or data. -/
def shownSettings (f : Format) (s : Settings) : Except String Printed :=
  match f with
  | .table =>
    match s.save? with
    | some text => .ok (.outLine text)
    | none => .error outOfRange
  | f => .ok (f.data s.toJson)

def showSettings (h : Host σ) (path : String) (f : Format) : Outcome σ :=
  let shown : Except String Printed := do
    let s ← loadSettings h path
    let s ← (s.withEnvironment h.environment).mapError (·.message)
    shownSettings f s.masked
  match shown with
  | .ok printed => .success printed
  | .error message => .failure message

/-- Writes a file with the usual settings, in place of an old one only by demand. -/
def initSettings (h : Host σ) (path : String) (force : Bool) : Outcome σ :=
  if h.isThere path && !force then
    .failure (path ++ " already exists (use --force to overwrite)")
  else
    let saved := saveSettings h path {}
    match saved.1 with
    | .error fault => { Outcome.failure fault.message with writes := saved.2 }
    | .ok () =>
      { code := passedCode
        printed := .success ("Wrote default configuration to " ++ path)
        writes := saved.2 }

end Command

end PlainSteps
