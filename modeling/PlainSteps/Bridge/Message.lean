import PlainSteps.Json.Reader
import PlainSteps.Json.Record
import PlainSteps.Json.Writer
import PlainSteps.Result

/-!
# Messages on the bridge

The program and its helper process exchange lines, each a JSON object.

* `Bridge.Request` : what the program asks, with a number.
* `Bridge.Message` : what the helper says: a reply to the request with a number, or a response that
  the page received. `Message.read?` takes what can be a reply for a reply.
-/

namespace PlainSteps.Bridge

open Json (count? natural? optional? orElse?)

/-- A request. -/
structure Request where
  id : Nat
  command : String
  arguments : Json
  deriving Repr

def Request.toJson (r : Request) : Json :=
  .object [("args", r.arguments), ("cmd", .string r.command), ("id", .nat r.id)]

def Request.line (r : Request) : String :=
  r.toJson.compact

/-- A reply to the request with a number. -/
structure Reply where
  id : Nat
  ok : Bool
  value : Json
  error : Option String
  /-- Whether the request failed because its time was over. -/
  timeout : Bool
  deriving Repr

/-- A line from the helper. -/
inductive Message where
  | reply (r : Reply)
  | response (e : Exchange)
  deriving Repr

def truth? : Json → Option Bool
  | .bool b => some b
  | _ => none

namespace Reply

def fieldNames : List String := ["id", "ok", "value", "error", "timeout"]

def ofJson? (v : Json) : Option Reply :=
  match v.fields? fieldNames with
  | some [id, ok, value, error, timeout] => do
    some {
      id := ← id.bind count?
      ok := ← ok.bind truth?
      value := (value.getD .null).sorted
      error := ← optional? Json.text? error
      timeout := ← orElse? false truth? timeout }
  | _ => none

end Reply

def responseNames : List String := ["event", "url", "method", "status", "elapsed_ms"]

/-- The response in an object; the name of the event may be any text. -/
def response? (v : Json) : Option Exchange :=
  match v.fields? responseNames with
  | some [event, url, method, status, elapsedMs] => do
    let _ ← event.bind Json.text?
    some {
      url := ← url.bind Json.text?
      method := ← method.bind Json.text?
      status := ← status.bind (natural? (Nat.pow 2 16))
      elapsedMs := ← orElse? 0 count? elapsedMs }
  | _ => none

namespace Message

def ofJson? (v : Json) : Option Message :=
  ((Reply.ofJson? v).map reply).or ((response? v).map response)

def read? (line : String) : Option Message :=
  (Json.read? line).bind ofJson?

end Message

end PlainSteps.Bridge
