import PlainSteps.Result

/-!
# The network log

* `NetworkLog` : the responses noted since the log was last emptied, in order.
-/

namespace PlainSteps

/-- The responses noted since the log was last emptied. -/
structure NetworkLog where
  entries : List NetworkEntry
  deriving DecidableEq, Repr

namespace NetworkLog

def empty : NetworkLog := ⟨[]⟩

def record (log : NetworkLog) (e : NetworkEntry) : NetworkLog :=
  ⟨log.entries ++ [e]⟩

/-- Takes everything noted, and leaves the log empty. -/
def drain (log : NetworkLog) : List NetworkEntry × NetworkLog :=
  (log.entries, empty)

/-- How many responses are in the log. -/
def size (log : NetworkLog) : Nat :=
  log.entries.length

def isEmpty (log : NetworkLog) : Bool :=
  log.size == 0

end NetworkLog

end PlainSteps
