import PlainSteps.Digest
import PlainSteps.Path
import PlainSteps.Text.Ascii

/-!
# Where screenshots are kept

* `Evidence.component` : an identifier as one component of a path. One that has to be changed gets
  a part of its digest, so that different identifiers get different components.
* `Evidence.folder` : the folder of a case: root, run, case.
* `Evidence.file` : the file of a step, numbered from one.
-/

namespace PlainSteps.Evidence

open Text

def isKept (c : Char) : Bool :=
  isAsciiAlphanumeric c || c == '-' || c == '_'

/-- How many digits of the digest are added. -/
def digestLength : Nat := 8

/-- An identifier as one component of a path. -/
def component (id : String) : String :=
  let cleaned := id.toList.map fun c => if isKept c then c else '_'
  if !cleaned.isEmpty && cleaned == id.toList then id
  else
    let stem := if cleaned.isEmpty then "_" else String.ofList cleaned
    let digest := (Digest.hexDigest id.toUTF8.toList).toList.take digestLength
    stem ++ "-" ++ String.ofList digest

def folder (root runId caseId : String) : String :=
  Path.join (Path.join root (component runId)) (component caseId)

/-- The name of the file of a step. -/
def fileName (index : Nat) : String :=
  "step-" ++ toString (index + 1) ++ ".png"

def file (folder : String) (index : Nat) : String :=
  Path.join folder (fileName index)

end PlainSteps.Evidence
