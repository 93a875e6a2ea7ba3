import PlainSteps.Bridge.Message

/-!
# Connections to the helper

* `Bridge.Connection` : which requests wait for a reply, and which log responses go to.
* `Connection.start`, `receive`, `expire`, `abandon`, `finish` : the steps of a connection. A line
  from the helper completes at most one request, the pending one with its number, or is noted in at
  most one log.
* `Effect` : what a step brings about outside the connection.
-/

namespace PlainSteps.Bridge

/-- How many numbers there are for requests. -/
def numbers : Nat := Nat.pow 2 64

/-- A request without a reply so far. -/
structure Pending where
  id : Nat
  /-- Whether someone still waits for the reply. -/
  awaited : Bool
  deriving DecidableEq, Repr

/-- What a step brings about. -/
inductive Effect where
  /-- The request with the number of a reply is over. -/
  | answered (r : Reply)
  /-- A request will never have a reply. -/
  | disconnected (id : Nat)
  /-- A response goes to the log with a number. -/
  | noted (log : Nat) (e : Exchange)
  deriving Repr

/-- The state of a connection. -/
structure Connection where
  /-- The number of the next request. -/
  nextId : Nat := 1
  pending : List Pending := []
  /-- Whether the helper still writes. -/
  isOpen : Bool := true
  /-- The number of the log that responses go to. -/
  sink : Option Nat := none
  deriving DecidableEq, Repr

namespace Connection

/-- A new request, which waits for its reply from now on: its number, and the connection. -/
def start (c : Connection) : Nat × Connection :=
  (c.nextId,
    { c with nextId := (c.nextId + 1) % numbers, pending := c.pending ++ [⟨c.nextId, true⟩] })

/-- The connection without the pending request of a number. -/
def without (c : Connection) (id : Nat) : Connection :=
  { c with pending := c.pending.filter (·.id != id) }

def route (c : Connection) : Message → List Effect × Connection
  | .reply r =>
    match c.pending.find? (·.id == r.id) with
    | none => ([], c)
    | some p => (if p.awaited then [.answered r] else [], c.without r.id)
  | .response e =>
    match c.sink with
    | none => ([], c)
    | some log => ([.noted log e], c)

/-- A line arrives. One that is no message is passed over. -/
def receive (c : Connection) (line : String) : List Effect × Connection :=
  match Message.read? line with
  | none => ([], c)
  | some m => c.route m

def receiveAll (c : Connection) : List String → List Effect × Connection
  | [] => ([], c)
  | line :: lines =>
    let (effects, c) := c.receive line
    let (more, c) := c.receiveAll lines
    (effects ++ more, c)

/-- The time for a request is over, or it could not be written. -/
def expire (c : Connection) (id : Nat) : Connection :=
  c.without id

/-- No one waits for a request any more. -/
def abandon (c : Connection) (id : Nat) : Connection :=
  { c with pending := c.pending.map fun p => if p.id = id then { p with awaited := false } else p }

/-- The helper writes no more: all who wait learn of it. -/
def finish (c : Connection) : List Effect × Connection :=
  ((c.pending.filter (·.awaited)).map (.disconnected ·.id), { c with pending := [], isOpen := false })

/-- From now on responses go to the log with a number, or to none. -/
def attach (c : Connection) (log : Option Nat) : Connection :=
  { c with sink := log }

end Connection

end PlainSteps.Bridge
