import PlainSteps.Json.Reader
import PlainSteps.Path
import PlainSteps.TestCase
import PlainSteps.Yaml.Reader

/-!
# Case files

* `CaseFile.cases?` : the cases in a value: those of its field `cases`, or the items of a list, or
  one case.
* `CaseFile.readYaml` and `CaseFile.readJson` : the cases in a text.
* `CaseFile.load` : the cases of one file, or of all case files in a folder in the order of their
  paths.

A case without an identifier is given one by a supply of names, which is called with the number of
the case.
-/

namespace PlainSteps

/-- Why a text holds no cases. -/
inductive CaseFault where
  /-- The text is malformed. -/
  | malformed
  /-- The text is well formed and has none of the shapes of a case file. -/
  | noCases
  deriving DecidableEq, Repr

/-- What is wrong with the file at a path. -/
structure CaseFileError where
  path : String
  /-- What is wrong with its text. A file that cannot be read has no text that is well formed. -/
  fault : CaseFault
  /-- Why it cannot be read, in the words of the system. -/
  unread : Option String := none
  deriving DecidableEq, Repr

namespace CaseFile

/-! ## Records -/

/-- The field that a key stands for: a name among `names`, or its number. The inner `none` is a key
that is passed over; a key of another kind is refused. -/
def slot? (names : List String) : Yaml → Option (Option Nat)
  | .string s => some (names.findIdx? (· == s))
  | .number (.whole n) =>
    if n < 0 then none else some (if n.toNat < names.length then some n.toNat else none)
  | _ => none

/-- The values of the known fields by number. A field may be given once. -/
def slots? (names : List String) : List (Yaml × Yaml) → Option (List (Nat × Yaml))
  | [] => some []
  | (k, v) :: fs =>
    match slot? names k, slots? names fs with
    | some none, some rest => some rest
    | some (some i), some rest => if rest.any (·.1 == i) then none else some ((i, v) :: rest)
    | _, _ => none

/-- The value of the field with a number. -/
def value? (fields : List (Nat × Yaml)) (i : Nat) : Option Yaml :=
  (fields.find? (·.1 == i)).map (·.2)

def text? : Yaml → Option String
  | .string s => some s
  | _ => none

def texts? : Yaml → Option (List String)
  | .list items => items.mapM text?
  | _ => none

def fieldOr {α : Type} (fields : List (Nat × Yaml)) (i : Nat) (usual : α)
    (read : Yaml → Option α) : Option α :=
  match value? fields i with
  | none => some usual
  | some v => read v

/-! ## Cases -/

/-- The fields of a case, in order. -/
def caseFields : List String := ["id", "name", "description", "tags", "steps"]

def ofFields? (freshId : String) (fields : List (Nat × Yaml)) : Option TestCase := do
  some {
    id := ← fieldOr fields 0 freshId text?
    name := ← fieldOr fields 1 "" text?
    description := ← fieldOr fields 2 "" text?
    tags := ← fieldOr fields 3 [] texts?
    steps := ← (← value? fields 4) |> texts? }

/-- A case: its fields by name, or all of them in order. -/
def case? (freshId : String) : Yaml → Option TestCase
  | .map fields => (slots? caseFields fields).bind (ofFields? freshId)
  | .list items =>
    if caseFields.length < items.length then none
    else ofFields? freshId ((List.range items.length).zip items)
  | _ => none

def caseList? (fresh : Nat → String) (start : Nat) : List Yaml → Option (List TestCase)
  | [] => some []
  | v :: vs =>
    match case? (fresh start) v, caseList? fresh (start + 1) vs with
    | some c, some cs => some (c :: cs)
    | _, _ => none

/-- The cases under the field `cases` of a map. -/
def many? (fresh : Nat → String) : Yaml → Option (List TestCase)
  | .map fields =>
    match (slots? ["cases"] fields).bind (value? · 0) with
    | some (.list items) => caseList? fresh 0 items
    | _ => none
  | _ => none

/-- The cases that are the items of a list. -/
def list? (fresh : Nat → String) : Yaml → Option (List TestCase)
  | .list items => caseList? fresh 0 items
  | _ => none

/-- The cases in a value: the first of the three shapes that fits. -/
def cases? (fresh : Nat → String) (v : Yaml) : Option (List TestCase) :=
  (many? fresh v).or ((list? fresh v).or ((case? (fresh 0) v).map ([·])))

/-! ## Texts -/

def readYaml (fresh : Nat → String) (text : String) : Except CaseFault (List TestCase) :=
  match Yaml.read? text with
  | none => .error .malformed
  | some v => (cases? fresh v).elim (.error .noCases) .ok

/-- The cases in a JSON text. That its value is no case file counts before anything that follows the
value. -/
def readJson (fresh : Nat → String) (text : String) : Except CaseFault (List TestCase) :=
  match Json.readValue? text with
  | none => .error .malformed
  | some (v, rest) =>
    match cases? fresh (Yaml.ofJson v) with
    | none => .error .noCases
    | some cs => if (Json.skipSpace rest).isEmpty then .ok cs else .error .malformed

/-! ## Files -/

/-- Why something that is there is not to be had. -/
inductive Obstacle where
  /-- A file cannot be read, for a reason in the words of the system. -/
  | locked (reason : String)
  /-- The files of a folder cannot be listed. -/
  | closed
  deriving DecidableEq, Repr

/-- What is found at a path. The files of a folder are given by their components below it, and so are
the files and folders, itself among them, that are not to be had. -/
inductive Found where
  | file (text : String)
  /-- A file that cannot be read. -/
  | locked (reason : String)
  | folder (files : List (List String × String)) (obstacles : List (List String × Obstacle) := [])
  | nothing

/-- What reading a file comes to: its text, or the reason why it cannot be read. -/
abbrev Reading := Except String String

/-- Whether a file of a folder holds cases, by its extension. -/
def isCaseFile (components : List String) : Bool :=
  match components.getLast?.bind Path.extension? with
  | some e => ["yaml", "yml", "json"].contains e
  | none => false

/-- The cases in a text of the format that the path of its file tells. -/
def readText (fresh : Nat → String) (path text : String) : Except CaseFault (List TestCase) :=
  let name := ((Path.components path).getLast?).getD ""
  if Path.extension? name == some "json" then readJson fresh text else readYaml fresh text

/-- The cases of one file. -/
def readFile (fresh : Nat → String) (path : String) : Reading → Except CaseFileError (List TestCase)
  | .error reason => .error { path, fault := .malformed, unread := some reason }
  | .ok text => (readText fresh path text).mapError fun fault => { path, fault }

/-- The cases of several files, one after the other, numbered from `start` on. -/
def readFiles (fresh : Nat → String) (base : String) (start : Nat) :
    List (List String × Reading) → Except CaseFileError (List TestCase)
  | [] => .ok []
  | (components, reading) :: files =>
    match readFile (fun n => fresh (start + n)) (Path.below base components) reading with
    | .error e => .error e
    | .ok cs => (readFiles fresh base (start + cs.length) files).map (cs ++ ·)

/-- What reading the files of a folder comes to. What is in a folder that cannot be listed is passed
over. -/
def readings (files : List (List String × String)) (obstacles : List (List String × Obstacle)) :
    List (List String × Reading) :=
  files.map (fun f => (f.1, .ok f.2)) ++ obstacles.filterMap fun
    | (components, .locked reason) => some (components, .error reason)
    | (_, .closed) => none

/-- The case files of a folder in the order of their paths. -/
def inOrder (files : List (List String × Reading)) : List (List String × Reading) :=
  (files.filter fun f => isCaseFile f.1).mergeSort fun a b => Path.before a.1 b.1

/-- The cases at a path. Where nothing is found there are none. -/
def load (fresh : Nat → String) (path : String) : Found → Except CaseFileError (List TestCase)
  | .file text => readFile fresh path (.ok text)
  | .locked reason => readFile fresh path (.error reason)
  | .folder files obstacles => readFiles fresh path 0 (inOrder (readings files obstacles))
  | .nothing => .ok []

end CaseFile

end PlainSteps
