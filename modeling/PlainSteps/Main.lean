import PlainSteps.Bridge.Planned
import PlainSteps.Command
import Std.Time.DateTime.Timestamp

/-!
# The command line

* `snapshot` : the files that an invocation is about, as they are before it.
* `main` : does what the arguments ask for, prints, and writes files.

No helper process is started from here, so that a run ends with the error that there is none.
-/

namespace PlainSteps.Command

/-! ## Files -/

/-- An error of the system in its own words. -/
def systemReason : IO.Error → String
  | .permissionDenied _ code _ => "Permission denied (os error " ++ toString code ++ ")"
  | e => toString e

/-- What reading a file comes to. -/
def readingOf (path : String) : IO CaseFile.Reading := do
  try
    match String.fromUTF8? (← IO.FS.readBinFile path) with
    | some text => return .ok text
    | none => return .error "stream did not contain valid UTF-8"
  catch e => return .error (systemReason e)

/-- The files below a folder, and what is not to be had there, given by their components. Links are
not followed. -/
partial def below (path : String) :
    IO (List (List String × String) × List (List String × CaseFile.Obstacle)) := do
  let mut files := []
  let mut obstacles := []
  for entry in ← (← IO.FS.realPath path).readDir do
    let name := entry.fileName
    match (← entry.path.symlinkMetadata).type with
    | .dir =>
      let (inner, closed) ←
        try below (Path.join path name) catch _ => pure ([], [([], CaseFile.Obstacle.closed)])
      files := files ++ inner.map fun (components, text) => (name :: components, text)
      obstacles := obstacles ++ closed.map fun (components, o) => (name :: components, o)
    | .file =>
      match ← readingOf (Path.join path name) with
      | .ok text => files := files ++ [([name], text)]
      | .error reason => obstacles := obstacles ++ [([name], .locked reason)]
    | _ => pure ()
  return (files, obstacles)

/-- What is at a path. The files of a folder are of interest only sometimes. -/
def lookAt (deep : Bool) (path : String) : IO CaseFile.Found := do
  let type ← try pure (some (← (← IO.FS.realPath path).metadata).type) catch _ => pure none
  match type with
  | none => return .nothing
  | some .dir =>
    if !deep then return .folder []
    try
      let (files, obstacles) ← below path
      return .folder files obstacles
    catch _ => return .folder [] [([], .closed)]
  | some _ =>
    match ← readingOf path with
    | .ok text => return .file text
    | .error reason => return .locked reason

/-- What is at the paths that an invocation is about, and above them. -/
def snapshot (i : Invocation) : IO (List (String × CaseFile.Found)) := do
  let shallow ← (i.files.flatMap fun p => p :: Path.above p).mapM fun p =>
    return (p, ← lookAt false p)
  let deep ← i.folders.mapM fun p => return (p, ← lookAt true p)
  return deep ++ shallow

/-! ## The surroundings -/

/-- The environment variables that have a say, with their values. -/
def currentEnvironment : IO Environment := do
  let values ← variableNames.mapM fun name => return (name, ← IO.getEnv name)
  return values.filterMap fun (name, value) => value.map (name, ·)

def randomDigits (count : Nat) : IO String := do
  let mut digits := []
  for _ in [0:count] do
    digits := Nat.digitChar (← IO.rand 0 15) :: digits
  return String.ofList digits

/-- A name for a run: digits in five groups. -/
def randomRunId : IO String := do
  return "-".intercalate [← randomDigits 8, ← randomDigits 4, "4" ++ (← randomDigits 3),
    "a" ++ (← randomDigits 3), ← randomDigits 12]

def currentMoment : IO Timestamp := do
  let nanos := (← Std.Time.Timestamp.now).toNanosecondsSinceUnixEpoch.val
  return ⟨nanos.fdiv 1000000000, (nanos.fmod 1000000000).toNat⟩

def currentHost (environment : Environment) (i : Invocation) :
    IO (Host (Bridge.Client Bridge.Plan)) := do
  let files ← snapshot i
  let runId ← randomRunId
  let seed ← IO.rand 0 (Nat.pow 2 32 - 1)
  let moment ← currentMoment
  return {
    environment
    look := fun path => ((files.find? (·.1 == path)).map (·.2)).getD .nothing
    runId
    freshId := fun n => "case-" ++ Digest.hex (Digest.bigEndian 4 (seed + n))
    world := fun b =>
      Bridge.Client.world ((Bridge.Plan.script []).helper
        (some (b.nodeBinary ++ ": no helper can be started"))) (fun _ => true) moment
    page := {} }

/-! ## Output -/

def Outcome.deliver {σ : Type} (o : Outcome σ) : IO UInt32 := do
  for (path, text) in o.writes do
    if let some folder := (Path.above path).getLast? then
      IO.FS.createDirAll folder
    IO.FS.writeFile path text
  IO.print o.printed.out
  IO.eprint o.printed.err
  return UInt32.ofNat o.code

end PlainSteps.Command

open PlainSteps.Command in
/-- Does what the arguments ask for. -/
def main (arguments : List String) : IO UInt32 := do
  let environment ← currentEnvironment
  match Invocation.parse environment arguments with
  | .error refusal => (refusal.outcome : Outcome Unit).deliver
  | .ok invocation =>
    match perform (← currentHost environment invocation) invocation with
    | .done outcome => outcome.deliver
    | .halted _ => return UInt32.ofNat errorCode
