import PlainSteps.NetworkLog
import PlainSteps.Routine

/-!
# Sessions

* `World` : how a browser behaves: what each request does to it, how long it takes, what it brings
  back, and which responses the browser receives meanwhile. Nothing is assumed of it.
* `Session` : the browser, the clock, and what has been noted so far.
* `Session.ask` : what comes of one request, which may be given up at its limit.
* `Routine.run` : a routine carried out in a session, perhaps under a deadline. At the deadline it
  is dropped where it stands.
-/

namespace PlainSteps

/-! ## The world -/

/-- What a breakdown of the program says. -/
inductive Breakdown where
  | message (s : String)
  | unknown
  deriving DecidableEq, Repr

def Breakdown.text : Breakdown → String
  | message s => s
  | unknown => "unknown panic"

/-- How a request ends that is not given up. -/
inductive Outcome where
  | ok (v : Value)
  | failed (e : BrowserError)
  /-- The program itself breaks down. -/
  | breakdown (b : Breakdown)
  deriving DecidableEq, Repr

/-- What a request does. -/
structure Answer (σ : Type) where
  /-- The browser from now on. -/
  page : σ
  /-- The milliseconds until the request ends; it may never end. -/
  delay : Option Nat
  outcome : Outcome
  /-- The responses received, with the milliseconds from the request to each. Only those that come before the
  request ends count. -/
  exchanges : List (Nat × Exchange)

/-- How a browser behaves, and what lies outside the program's control besides. -/
structure World (σ : Type) where
  /-- What a request does, made at a time in milliseconds. -/
  answer : σ → Nat → Call → Answer σ
  /-- Whether a file can be written at a time. -/
  stores : σ → Nat → String → Bool
  /-- Whether something that ends exactly at a deadline still counts. -/
  lenient : Nat → Bool
  /-- The moment at which the clock of the session starts. -/
  opening : Timestamp

/-! ## Sessions -/

/-- Something that was done to the browser. -/
inductive Event where
  | call (time : Nat) (c : Call)
  /-- Responses are noted from now on, or no more. -/
  | capture (time : Nat) (on : Bool)
  deriving DecidableEq, Repr

/-- A result published while a case runs. -/
structure Progress where
  runId : String
  caseId : String
  result : StepResult
  deriving DecidableEq, Repr

/-- The browser, the clock, and what has been noted so far. -/
structure Session (σ : Type) where
  page : σ
  /-- Milliseconds since the session started. -/
  now : Nat := 0
  /-- What was done to the browser, in order. -/
  events : List Event := []
  /-- The log that responses go to, if there is one. -/
  network : Option NetworkLog := none
  /-- The files written, each path once. -/
  files : List (String × List UInt8) := []
  /-- The results published, if anyone listens. -/
  progress : Option (List Progress) := none

namespace Session

variable {σ : Type}

def moment (w : World σ) (s : Session σ) : Timestamp :=
  w.opening.after s.now

def publish (s : Session σ) (p : Progress) : Session σ :=
  { s with progress := s.progress.map (· ++ [p]) }

/-- From now on responses are noted in an empty log, or in none. -/
def capture (s : Session σ) (on : Bool) : Session σ :=
  { s with
    events := s.events ++ [.capture s.now on]
    network := if on then some .empty else none }

/-- Takes the responses noted, if a log is kept. -/
def drain (s : Session σ) : Option (List NetworkEntry) × Session σ :=
  match s.network with
  | none => (none, s)
  | some log => (some log.drain.1, { s with network := some log.drain.2 })

/-- Writes a file in place of any other at its path. -/
def write (s : Session σ) (path : String) (bytes : List UInt8) : Session σ :=
  { s with files := (path, bytes) :: s.files.filter (·.1 != path) }

/-- Notes the responses received up to now since a time. They are those that a request brings while it is
waited for: what arrives later, during a pause or once the request is given up, belongs to no request here
and is not noted. -/
def receive (w : World σ) (since : Nat) (exchanges : List (Nat × Exchange)) (s : Session σ) :
    Session σ :=
  let seen := exchanges.filter fun e => since + e.1 ≤ s.now
  let entries := seen.map fun e => (⟨e.2, w.opening.after (since + e.1)⟩ : NetworkEntry)
  { s with network := s.network.map fun log => ⟨log.entries ++ entries⟩ }

/-- No timer is set further ahead than thirty years. The cap holds for every timer, also for one that the
clock could still hold. -/
def longest : Nat := 30 * 365 * 86400 * 1000

/-- Whether a time is reached before the deadline. What takes no time is always reached, and what
ends exactly at the deadline may be. -/
def reaches (w : World σ) (deadline : Option Nat) (now time : Nat) : Bool :=
  match deadline with
  | none => true
  | some d => time == now || time < d || time == d && w.lenient d

/-- Lets time pass, but not beyond the deadline; tells whether all of it has passed. -/
def elapse (w : World σ) (deadline : Option Nat) (ms : Nat) (s : Session σ) : Bool × Session σ :=
  if reaches w deadline s.now (s.now + ms) then (true, { s with now := s.now + ms })
  else (false, { s with now := deadline.getD s.now })

end Session

/-! ## Carrying out routines -/

/-- Why a routine was not carried out to its end. -/
inductive Halt where
  | deadline
  | breakdown (b : Breakdown)
  /-- A request without a limit never ended. -/
  | stuck
  deriving DecidableEq, Repr

/-- The end of a routine. -/
inductive Ended (α : Type) where
  | done (a : α)
  | halted (h : Halt)
  deriving Repr

/-- When the wait for a request ends, and whether the request has ended by then. -/
def waitFor (limit delay : Option Nat) : Option (Nat × Bool) :=
  match limit.map (min Session.longest), delay with
  | none, none => none
  | none, some d => some (d, true)
  | some l, none => some (l, false)
  | some l, some d => if d ≤ l then some (d, true) else some (l, false)

namespace Session

variable {σ : Type}

/-- The session once a request is made. -/
def made (w : World σ) (c : Call) (s : Session σ) : Session σ :=
  { s with
    page := (w.answer s.page s.now c).page
    events := s.events ++ [.call s.now c] }

/-- The session once a request made now has been waited for up to a time. -/
def awaited (w : World σ) (c : Call) (time : Nat) (s : Session σ) : Session σ :=
  { s.made w c with now := time }.receive w s.now (w.answer s.page s.now c).exchanges

end Session

/-- What a routine learns of a request that has ended. -/
def Outcome.ended : Outcome → Ended Reply
  | ok v => .done (.ok v)
  | failed e => .done (.failed e)
  | breakdown b => .halted (.breakdown b)

/-- Makes a request and waits for it up to its limit, but not beyond the deadline. -/
def Session.ask {σ : Type} (w : World σ) (deadline : Option Nat) (c : Call) (limit : Option Nat)
    (s : Session σ) : Ended Reply × Session σ :=
  let a := w.answer s.page s.now c
  match waitFor limit a.delay with
  | none =>
    match deadline with
    | none => (.halted .stuck, s.made w c)
    | some d => (.halted .deadline, s.awaited w c (max s.now d))
  | some (ms, ended) =>
    if Session.reaches w deadline s.now (s.now + ms) then
      (if ended then a.outcome.ended else .done .late, s.awaited w c (s.now + ms))
    else (.halted .deadline, s.awaited w c (deadline.getD s.now))

/-- What follows once a routine is done; a halt is passed on. -/
def Ended.andThen {σ α β : Type} (x : Ended α × Session σ)
    (f : α → Session σ → Ended β × Session σ) : Ended β × Session σ :=
  match x with
  | (done a, s) => f a s
  | (halted h, s) => (halted h, s)

/-- Carries out a routine in a session. -/
def Routine.run {σ α : Type} (w : World σ) (deadline : Option Nat) :
    Routine α → Session σ → Ended α × Session σ
  | done a, s => (.done a, s)
  | pause ms next, s =>
    match s.elapse w deadline (min Session.longest ms) with
    | (true, s) => next.run w deadline s
    | (false, s) => (.halted .deadline, s)
  | save path bytes next, s =>
    if w.stores s.page s.now path then (next true).run w deadline (s.write path bytes)
    else (next false).run w deadline s
  | call c limit next, s =>
    Ended.andThen (s.ask w deadline c limit) fun r s => (next r).run w deadline s

end PlainSteps
