import PlainSteps.CaseFile
import PlainSteps.Report
import PlainSteps.Session

/-!
# The surroundings of the program

* `Host` : what the program finds around it: the environment, files, and a browser.
* `Host.read` and `Host.mayWrite` : files, and why they cannot be read or written.
* `Outcome` : what the program leaves behind.
-/

namespace PlainSteps.Command

/-- What the program finds around it. -/
structure Host (σ : Type) where
  environment : Environment
  /-- What is found at a path. -/
  look : String → CaseFile.Found
  /-- A name that no other run has. -/
  runId : String
  /-- Names for cases without one. -/
  freshId : Nat → String
  /-- The world with the browser that settings describe. -/
  world : BrowserSettings → World σ
  /-- The browser before it is launched. -/
  page : σ

/-- The environment variables that have a say. -/
def variableNames : List String :=
  ["STEPWISE_CONFIG", "STEPWISE_TARGET_URL", "STEPWISE_BROWSER", "STEPWISE_HEADLESS",
    "STEPWISE_FORCE_HEADLESS", "CI", "DISPLAY", "WAYLAND_DISPLAY", "CLICOLOR_FORCE"]

/-- What the program leaves behind. -/
structure Outcome (σ : Type) where
  /-- The exit code. -/
  code : Nat
  printed : Printed := {}
  /-- The text files written. -/
  writes : List (String × String) := []
  /-- The session at the end of a run. -/
  session : Option (Session σ) := none

def passedCode : Nat := 0

/-- The exit code after a case failed. -/
def failedCode : Nat := 1

/-- The exit code when the work could not be done. -/
def errorCode : Nat := 2

def Outcome.failure {σ : Type} (message : String) : Outcome σ where
  code := errorCode
  printed := .failure message

def Outcome.success {σ : Type} (printed : Printed) : Outcome σ where
  code := passedCode
  printed

/-! ## Files -/

/-- Why a file cannot be read or written. -/
inductive FileFault where
  /-- There is a folder at its path. -/
  | isFolder
  /-- There is a file at the path of its folder. -/
  | isFile
  /-- There is a file further up. -/
  | belowFile
  /-- It is there and cannot be read, for a reason in the words of the system. -/
  | unreadable (reason : String)
  deriving DecidableEq, Repr

/-- The reason in the words of the system. -/
def FileFault.reason : FileFault → String
  | isFolder => "Is a directory (os error 21)"
  | isFile => "File exists (os error 17)"
  | belowFile => "Not a directory (os error 20)"
  | unreadable reason => reason

/-- The error in words, and its cause after it. -/
def FileFault.message (e : FileFault) : String :=
  "IO error: " ++ e.reason ++ ": " ++ e.reason

namespace Host

variable {σ : Type}

/-- The text of a file, if there is something at its path. -/
def read (h : Host σ) (path : String) : Except FileFault (Option String) :=
  match h.look path with
  | .file text => .ok (some text)
  | .locked reason => .error (.unreadable reason)
  | .folder _ _ => .error .isFolder
  | .nothing => .ok none

/-- Whether there is something at a path. -/
def isThere (h : Host σ) (path : String) : Bool :=
  match h.look path with
  | .nothing => false
  | _ => true

/-- Whether there is a file at a path. -/
def isFile (h : Host σ) (path : String) : Bool :=
  match h.look path with
  | .file _ | .locked _ => true
  | _ => false

/-- Whether a file can be written at a path, with the folders above it. -/
def mayWrite (h : Host σ) (path : String) : Except FileFault Unit :=
  let folders := Path.above path
  if folders.dropLast.any h.isFile then .error .belowFile
  else if folders.getLast?.any h.isFile then .error .isFile
  else
    match h.look path with
    | .folder _ _ => .error .isFolder
    | _ => if path.toList.getLast? == some '/' then .error .isFolder else .ok ()

/-- Whether emphasis is wanted although no terminal is there. -/
def emphasis (h : Host σ) : Bool :=
  match h.environment.get? "CLICOLOR_FORCE" with
  | none => false
  | some v => v != "0"

end Host

end PlainSteps.Command
