import PlainSteps.Base64
import PlainSteps.Bridge.Connection
import PlainSteps.Session

/-!
# A browser behind a helper process

* `Bridge.Helper` : a process that reads requests and writes lines, as far as the program can see.
* `Bridge.Client` : the program's end: its connection, and what became of the helper.
* `Client.perform` : a call, carried out by a request to the helper; `Client.world` is the world with
  that browser.
-/

namespace PlainSteps.Bridge

/-! ## The helper -/

/-- A helper process. -/
structure Helper (σ : Type) where
  /-- Why the helper cannot be started, if so. -/
  obstacle : Option String
  /-- Its state after it is started, or nothing if it ends at once. -/
  initial : Option σ
  /-- What it writes after it has read a request, and its state, or nothing if it ends. -/
  react : σ → Request → List String × Option σ

/-- A line without a carriage return at its end. -/
def withoutReturn (s : List Char) : List Char :=
  if s.getLast? = some '\r' then s.dropLast else s

/-- The lines of what the helper writes. -/
def linesOf (written : List String) : List String :=
  (written.flatMap (·.splitOn "\n")).map fun s => String.ofList (withoutReturn s.toList)

/-- The program's end of the bridge. -/
structure Client (σ : Type) where
  connection : Connection := {}
  /-- The state of the helper; nothing before it is started and after it has ended. -/
  helper : Option σ := none
  /-- The requests that the helper has read, in order. -/
  requests : List Request := []

/-! ## Requests and results -/

/-- How long a reply may take beyond the time limit of a request, in milliseconds. -/
def grace : Nat := 5000

/-- The time limit of a request that has none of its own, in milliseconds. -/
def usualLimit : Nat := 30000

/-- What a call asks of the helper. -/
def arguments : Call → Json
  | .launch o =>
    .object [("browser", .string o.kind.name), ("headless", .bool o.headless),
      ("viewport", .object [("height", .nat o.viewport.height.toNat),
        ("width", .nat o.viewport.width.toNat)])]
  | .openPage | .close => .object []
  | .goto url loaded timeout =>
    .object [("timeout", .nat timeout), ("url", .string url), ("wait_until", .string loaded.word)]
  | .waitForLoad loaded timeout =>
    .object [("state", .string loaded.word), ("timeout", .nat timeout)]
  | .click locator timeout | .readText locator timeout =>
    .object [("locator", .string locator), ("timeout", .nat timeout)]
  | .fill locator value timeout =>
    .object [("locator", .string locator), ("timeout", .nat timeout), ("value", .string value)]
  | .waitFor locator state timeout =>
    .object [("locator", .string locator), ("state", .string state.word), ("timeout", .nat timeout)]
  | .screenshot fullPage => .object [("full_page", .bool fullPage)]

/-- How long the program waits for the reply to a call, in milliseconds. -/
def patience : Call → Nat
  | .launch _ | .openPage | .close => usualLimit
  | .goto _ _ t | .waitForLoad _ t | .click _ t | .fill _ _ t | .readText _ t | .waitFor _ _ t =>
    t + grace
  | .screenshot _ => usualLimit + grace

/-- What a reply says of a request. -/
def Reply.result (r : Reply) (command : String) (wait : Nat) : Except BrowserError Json :=
  if r.ok then .ok r.value
  else
    let reason := r.error.getD "unknown driver error"
    if r.timeout then .error (.timeout (command ++ ": " ++ reason) (wait - grace))
    else .error (.driver reason)

/-- The text in a reply. Data that is no text is written as JSON, and null is empty. -/
def textOf : Json → String
  | .string s => s
  | .null => ""
  | v => v.compact

def imageOf : Json → Except BrowserError Value
  | .string s =>
    match Base64.decode s with
    | .ok bytes => .ok (.image bytes)
    | .error fault => .error (.driver ("invalid screenshot data: " ++ fault.message))
  | _ => .error (.driver "screenshot reply was not a string")

/-- What a call brings back, given what was replied. A browser that is gone is closed, and an error
in opening an address names the address. -/
def interpret : Call → Except BrowserError Json → Except BrowserError Value
  | .launch _, .error e => .error (.launch e.message)
  | .close, .error .disconnected => .ok .nothing
  | .goto url _ _, .error (.driver reason) => .error (.navigation url reason)
  | _, .error e => .error e
  | .readText _ _, .ok v => .ok (.text (textOf v))
  | .screenshot _, .ok v => imageOf v
  | _, .ok _ => .ok .nothing

/-! ## Calls -/

namespace Client

variable {σ : Type}

/-- The reply among the effects of lines. -/
def reply? (id : Nat) (effects : List Effect) : Option Reply :=
  effects.findSome? fun
    | .answered r => if r.id = id then some r else none
    | _ => none

/-- The responses noted among the effects of lines. -/
def noted (effects : List Effect) : List Exchange :=
  effects.filterMap fun
    | .noted _ e => some e
    | _ => none

/-- What became of a request. -/
structure Sent (σ : Type) where
  result : Except BrowserError Json
  /-- The milliseconds that passed. -/
  elapsed : Nat
  responses : List Exchange
  client : Client σ

/-- Sends a request to the helper and waits for the reply. -/
def send (h : Helper σ) (command : String) (args : Json) (wait : Nat) (c : Client σ) : Sent σ :=
  let (id, connection) := c.connection.start
  let request : Request := ⟨id, command, args⟩
  match c.helper with
  | none => ⟨.error .disconnected, 0, [], { c with connection := connection.expire id }⟩
  | some state =>
    let (written, state) := h.react state request
    let (effects, connection) := connection.receiveAll (linesOf written)
    let requests := c.requests ++ [request]
    let close (connection : Connection) : Connection :=
      if state.isNone then connection.finish.2 else connection
    match reply? id effects with
    | some r => ⟨r.result command wait, 0, noted effects, ⟨close connection, state, requests⟩⟩
    | none =>
      if state.isNone then
        ⟨.error .disconnected, 0, noted effects, ⟨close connection, state, requests⟩⟩
      else
        ⟨.error (.timeout command wait), wait, noted effects,
          ⟨connection.expire id, state, requests⟩⟩

def open? (h : Helper σ) (c : Client σ) : Except BrowserError (Client σ) :=
  match h.obstacle with
  | some reason => .error (.notInstalled reason)
  | none => .ok { c with helper := h.initial, connection := { sink := c.connection.sink } }

/-- A call with all that comes of it. -/
structure Performed (σ : Type) where
  result : Except BrowserError Value
  elapsed : Nat
  responses : List Exchange
  client : Client σ

def perform (h : Helper σ) (call : Call) (c : Client σ) : Performed σ :=
  let started := match call with
    | .launch _ => c.open? h
    | _ => .ok c
  match started with
  | .error e => ⟨.error e, 0, [], c⟩
  | .ok c =>
    let sent := c.send h call.word (arguments call) (patience call)
    ⟨interpret call sent.result, sent.elapsed, sent.responses, sent.client⟩

/-- The world with a browser behind the helper. Files can be written where `stores` says so. -/
def world (h : Helper σ) (stores : String → Bool) (opening : Timestamp) : World (Client σ) where
  answer c _ call :=
    let p := (({ c with connection := c.connection.attach (some 0) } : Client σ)).perform h call
    { page := p.client
      delay := some p.elapsed
      outcome := match p.result with
        | .ok v => .ok v
        | .error e => .failed e
      exchanges := p.responses.map (0, ·) }
  stores _ _ path := stores path
  lenient _ := true
  opening

end Client

end PlainSteps.Bridge
