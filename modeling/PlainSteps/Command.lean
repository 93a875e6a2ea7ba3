import PlainSteps.Command.Classify
import PlainSteps.Command.RunCases

/-!
# The program

* `Command.execute` : what the program does with its arguments.
-/

namespace PlainSteps.Command

variable {σ : Type}

/-- What is printed in reply to arguments that make no sense. -/
def usageHint : String :=
  "error: unexpected arguments\n\nFor more information, try '--help'."

/-- The end of a program that was not asked for any work. -/
def Refusal.outcome : Refusal → Outcome σ
  | faulty => { code := errorCode, printed := .errLine usageHint }
  | version path => .success (.outLine ("-".intercalate path ++ " " ++ programVersion))
  | help text => .success { out := text }
  | incomplete text => { code := errorCode, printed := { err := text } }

def perform (h : Host σ) (i : Invocation) : Ended (Outcome σ) :=
  match i.task with
  | .run options => runCases h i.config i.format options
  | .classify steps => .done (classify h i.config i.format steps)
  | .showSettings => .done (showSettings h i.config i.format)
  | .initSettings force => .done (initSettings h i.config force)
  | .version => .done (.success (.outLine ("Stepwise CLI v" ++ programVersion)))

/-- What the program does with its arguments. -/
def execute (h : Host σ) (arguments : List String) : Ended (Outcome σ) :=
  match Invocation.parse h.environment arguments with
  | .error refusal => .done refusal.outcome
  | .ok i => perform h i

end PlainSteps.Command
