import PlainSteps.Bridge.Client

/-!
# Traffic on a connection

* `Bridge.Waiter` : a request and the one who waits for its reply: how far the request has come, and
  what has been delivered.
* `Bridge.Turn` : what can become of a request on the side of the one who waits.
* `Bridge.Traffic` : a connection, all who have made requests on it, and the logs of responses.
* `Bridge.Move` : what can happen next: turns of requests and lines from the helper come in any order.
* `Traffic.step` : what comes of a move. One for which it is too early or too late changes nothing.
-/

namespace PlainSteps.Bridge

/-! ## Waiting for a reply -/

/-- How the wait for a reply ended. -/
inductive WaitEnd where
  | replied (r : Reply)
  /-- The request could not be written, or the helper writes no more. -/
  | disconnected
  | timedOut
  /-- The reply is not wanted any more. -/
  | dropped
  deriving Repr

/-- How far a request has come. -/
inductive Stage where
  | unwritten
  | written
  | over (e : WaitEnd)
  deriving Repr

/-- What has been delivered to the one who waits. -/
inductive Inbox where
  | empty
  | reply (r : Reply)
  /-- Nothing will be delivered any more. -/
  | closed
  deriving Repr

/-- A request and the one who waits for its reply. -/
structure Waiter where
  request : Request
  /-- How long the reply is waited for, in milliseconds. -/
  limit : Nat
  stage : Stage := .unwritten
  inbox : Inbox := .empty
  deriving Repr

/-- What can become of a request on the side of the one who waits. -/
inductive Turn where
  /-- The request is written, or it cannot be. -/
  | write (done : Bool)
  /-- What has been delivered is taken. -/
  | collect
  /-- The time for the reply is over. What has been delivered by then is taken all the same. -/
  | expire
  /-- The reply is not wanted any more. -/
  | drop
  deriving Repr

/-- What a turn of the request with a number means for the connection. -/
def Turn.settle (id : Nat) (c : Connection) : Turn → Connection
  | .write true | .collect => c
  | .write false | .expire => c.expire id
  | .drop => c.abandon id

namespace Waiter

/-- The number of the request. -/
def number (w : Waiter) : Nat := w.request.id

/-- What the one who waits learns in the end; nothing, if the reply is not wanted any more. -/
def result? (w : Waiter) : Option (Except BrowserError Json) :=
  match w.stage with
  | .over (.replied r) => some (r.result w.request.command w.limit)
  | .over .disconnected => some (.error .disconnected)
  | .over .timedOut => some (.error (.timeout w.request.command w.limit))
  | _ => none

/-- The waiter after a turn, if it is time for that. -/
def take? (w : Waiter) : Turn → Option Waiter
  | .write done =>
    match w.stage with
    | .unwritten => some { w with stage := if done then .written else .over .disconnected }
    | _ => none
  | .collect =>
    match w.stage, w.inbox with
    | .written, .reply r => some { w with stage := .over (.replied r) }
    | .written, .closed => some { w with stage := .over .disconnected }
    | _, _ => none
  | .expire =>
    match w.stage, w.inbox with
    | .written, .empty => some { w with stage := .over .timedOut }
    | _, _ => none
  | .drop =>
    match w.stage with
    | .over _ => none
    | _ => some { w with stage := .over .dropped }

/-- Something is delivered. -/
def deliver (w : Waiter) (inbox : Inbox) : Waiter :=
  { w with inbox }

end Waiter

/-! ## Moves -/

/-- A connection, all who have made requests on it, and the logs that responses go to. -/
structure Traffic where
  connection : Connection := {}
  /-- In the order of their requests. -/
  waiters : List Waiter := []
  logs : Nat → NetworkLog := fun _ => .empty

/-- What can happen next. -/
inductive Move where
  /-- A new request. -/
  | start (command : String) (arguments : Json) (limit : Nat)
  /-- A turn of the request with a number. -/
  | turn (id : Nat) (x : Turn)
  /-- The helper has written a line. -/
  | line (moment : Timestamp) (text : String)
  /-- The helper writes no more. -/
  | finish (moment : Timestamp)
  /-- Responses go to the log with a number from now on, or to none. -/
  | attach (log : Option Nat)
  deriving Repr

namespace Traffic

def waiter? (t : Traffic) (id : Nat) : Option Waiter :=
  t.waiters.find? (·.number == id)

/-- The traffic with another waiter in place of the one of its number. -/
def put (t : Traffic) (w : Waiter) : Traffic :=
  { t with waiters := t.waiters.map fun v => if v.number = w.number then w else v }

/-- Delivers something to the waiter of a number. -/
def deliver (t : Traffic) (id : Nat) (inbox : Inbox) : Traffic :=
  { t with waiters := t.waiters.map fun w => if w.number = id then w.deliver inbox else w }

/-- What an effect of the connection brings about at a moment. -/
def absorb (moment : Timestamp) (t : Traffic) : Effect → Traffic
  | .answered r => t.deliver r.id (.reply r)
  | .disconnected id => t.deliver id .closed
  | .noted log e =>
    { t with logs := fun n => if n = log then (t.logs n).record ⟨e, moment⟩ else t.logs n }

/-- The traffic once its connection has done something at a moment. -/
def after (t : Traffic) (moment : Timestamp) (x : List Effect × Connection) : Traffic :=
  x.1.foldl (absorb moment) { t with connection := x.2 }

/-- What comes of a move. -/
def step (t : Traffic) : Move → Traffic
  | .start command arguments limit =>
    let (id, connection) := t.connection.start
    { t with connection, waiters := t.waiters ++ [{ request := ⟨id, command, arguments⟩, limit }] }
  | .turn id x =>
    match (t.waiter? id).bind (·.take? x) with
    | none => t
    | some w => { t.put w with connection := x.settle id t.connection }
  | .line moment text =>
    if t.connection.isOpen then t.after moment (t.connection.receive text) else t
  | .finish moment => if t.connection.isOpen then t.after moment t.connection.finish else t
  | .attach log => { t with connection := t.connection.attach log }

/-- The traffic after moves on a new connection. -/
def run (moves : List Move) : Traffic :=
  moves.foldl step {}

theorem run_append (moves more : List Move) : run (moves ++ more) = more.foldl step (run moves) :=
  List.foldl_append

@[simp] theorem run_concat (moves : List Move) (m : Move) :
    run (moves ++ [m]) = (run moves).step m := by
  simp [run]

end Traffic

end PlainSteps.Bridge
