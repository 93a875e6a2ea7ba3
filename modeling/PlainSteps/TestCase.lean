/-!
# Test cases

* `TestCase` : a named list of sentences, run in order.
* `TestCase.find` and `TestCase.tagged` : the cases picked by identifier or by tag.
-/

namespace PlainSteps

/-- A test case as its author wrote it. -/
structure TestCase where
  id : String
  name : String := ""
  description : String := ""
  tags : List String := []
  /-- The sentences, in the order in which they are run. -/
  steps : List String
  deriving DecidableEq, Repr

/-- A case that was asked for by its identifier is not there. -/
structure MissingCase where
  id : String
  deriving DecidableEq, Repr

def MissingCase.message (e : MissingCase) : String :=
  "Test case not found: " ++ e.id

namespace TestCase

def hasTag (c : TestCase) (tag : String) : Bool :=
  c.tags.contains tag

def tagged (tag : String) (cases : List TestCase) : List TestCase :=
  cases.filter (·.hasTag tag)

def find (cases : List TestCase) (id : String) : Except MissingCase TestCase :=
  match cases.find? (·.id == id) with
  | some c => .ok c
  | none => .error ⟨id⟩

end TestCase

end PlainSteps
