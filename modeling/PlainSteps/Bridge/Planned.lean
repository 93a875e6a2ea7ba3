import PlainSteps.Bridge.Client

/-!
# Helpers that follow a plan

* `Bridge.Plan` : what a helper writes: either lines for one request after the other, or replies by
  rules.
* `Bridge.Plan.helper` : the helper with a plan.
-/

namespace PlainSteps.Bridge

/-- What becomes of requests with a command, or of those among them with a locator or address. -/
structure PlanRule where
  command : String
  subject : Option String
  /-- Lines written before the reply. -/
  events : List String
  /-- The error replied, if the request fails. -/
  error : Option String
  timeout : Bool
  value : Option Json
  deriving Repr

/-- What a helper writes. -/
inductive Plan where
  /-- Lines for one request after the other; the helper ends after the last ones. -/
  | script (replies : List (List String))
  /-- A reply to each request by the first rule that fits; the helper ends after it was closed, and
  if the launch fails. -/
  | rules (rules : List PlanRule)
  deriving Repr

/-- What a request is about: a locator, or an address. -/
def Request.subject? (r : Request) : Option String :=
  ((r.arguments.field? "locator").or (r.arguments.field? "url")).bind Json.text?

namespace PlanRule

def fits (rule : PlanRule) (r : Request) : Bool :=
  rule.command == r.command && (rule.subject.isNone || rule.subject == r.subject?)

end PlanRule

/-- The value replied where a rule gives none. -/
def usualValue (command : String) : Json :=
  if command == "screenshot" then .string "cG5n" else .null

/-- The reply by a rule, as a line. -/
def replyLine (rule : Option PlanRule) (r : Request) : String :=
  let reply : Json := match rule.bind (·.error) with
    | some e =>
      .object [("id", .nat r.id), ("ok", .bool false), ("error", .string e),
        ("timeout", .bool ((rule.map (·.timeout)).getD false))]
    | none =>
      .object [("id", .nat r.id), ("ok", .bool true),
        ("value", (rule.bind (·.value)).getD (usualValue r.command))]
  reply.compact

namespace Plan

/-- What a helper writes after a request, and the plan for those to come, if it goes on. -/
def react : Plan → Request → List String × Option Plan
  | script [], _ => ([], none)
  | script [lines], _ => (lines, none)
  | script (lines :: rest), _ => (lines, some (script rest))
  | rules rs, r =>
    let rule := rs.find? (·.fits r)
    let ends := r.command == "close" || r.command == "launch" && (rule.bind (·.error)).isSome
    (((rule.map (·.events)).getD []) ++ [replyLine rule r], if ends then none else some (rules rs))

/-- The plan of a helper that goes on after it was started. -/
def initial : Plan → Option Plan
  | script [] => none
  | p => some p

def helper (p : Plan) (obstacle : Option String) : Helper Plan where
  obstacle
  initial := p.initial
  react := react

end Plan

end PlainSteps.Bridge
