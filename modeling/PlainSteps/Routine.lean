import PlainSteps.Browser

/-!
# Routines

* `Routine` : what a step or a login does, one request after the other, where each depends on the
  answers to those before. A routine does not know the time.
* `Reply` : the answer to a request, or that it was given up.
* `Routine.ask` : a request; with a limit it is given up after so many milliseconds.
* `Routine.bind_assoc` and its companions : routines are sequenced like a monad.
-/

namespace PlainSteps

/-- What comes of a request. -/
inductive Reply where
  | ok (v : Value)
  | failed (e : BrowserError)
  /-- The request was given up at its limit. -/
  | late
  deriving DecidableEq, Repr

/-- Requests, pauses and files to write, up to a result. -/
inductive Routine (α : Type) : Type where
  | done (a : α)
  /-- A request, perhaps with a limit in milliseconds. -/
  | call (c : Call) (limit : Option Nat) (next : Reply → Routine α)
  /-- A pause of some milliseconds. -/
  | pause (ms : Nat) (next : Routine α)
  /-- A file to write, which may go wrong. -/
  | save (path : String) (bytes : List UInt8) (next : Bool → Routine α)

namespace Routine

/-- One routine after the other. -/
def bind {α β : Type} : Routine α → (α → Routine β) → Routine β
  | done a, f => f a
  | call c limit next, f => call c limit fun r => (next r).bind f
  | pause ms next, f => pause ms (next.bind f)
  | save path bytes next, f => save path bytes fun ok => (next ok).bind f

instance : Monad Routine where
  pure := done
  bind := bind

@[simp] theorem pure_eq_done {α : Type} (a : α) : (pure a : Routine α) = done a := rfl

@[simp] theorem bind_eq_bind {α β : Type} (r : Routine α) (f : α → Routine β) :
    r >>= f = r.bind f := rfl

@[simp] theorem done_bind {α β : Type} (a : α) (f : α → Routine β) : (done a).bind f = f a := rfl

@[simp] theorem bind_done {α : Type} (r : Routine α) : r.bind done = r := by
  induction r with
  | done a => rfl
  | call c limit next ih => simp [bind, ih]
  | pause ms next ih => simp [bind, ih]
  | save path bytes next ih => simp [bind, ih]

theorem bind_assoc {α β γ : Type} (r : Routine α) (f : α → Routine β) (g : β → Routine γ) :
    (r.bind f).bind g = r.bind fun a => (f a).bind g := by
  induction r with
  | done a => rfl
  | call c limit next ih => simp [bind, ih]
  | pause ms next ih => simp [bind, ih]
  | save path bytes next ih => simp [bind, ih]

def ask (c : Call) (limit : Option Nat) : Routine Reply :=
  call c limit done

/-- A pause, which is left out when it takes no time. -/
def rest (ms : Nat) : Routine Unit :=
  if ms = 0 then done () else pause ms (done ())

/-- A request without a limit. -/
def request (c : Call) : Routine (Except BrowserError Value) :=
  call c none fun
    | .ok v => done (.ok v)
    | .failed e => done (.error e)
    | .late => done (.error (.timeout c.word 0))

/-- How long a request may take beyond its own time limit before it is given up. -/
def grace : Nat := 1000

/-- A request that is given up a little after its own time limit. -/
def bounded (operation : String) (timeout : Nat) (c : Call) :
    Routine (Except BrowserError Value) :=
  call c (some (timeout + grace)) fun
    | .ok v => done (.ok v)
    | .failed e => done (.error e)
    | .late => done (.error (.timeout operation timeout))

end Routine

end PlainSteps
