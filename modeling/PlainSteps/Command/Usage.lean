import PlainSteps.Text.Ascii

/-!
# Arguments of a command line

* `Usage` : what a command takes: switches with or without a value, operands, and subcommands.
* `Usage.scan` : the arguments sorted out, or what is asked for instead: help, or the version. A switch
  may be given once.
* `Usage.help` : the help on a command.
-/

namespace PlainSteps.Command

/-- A switch. -/
structure Switch where
  /-- The name after two hyphens. -/
  name : String
  /-- The letter after one hyphen. -/
  letter : Option Char := none
  /-- The name of the value, if the switch takes one. -/
  value : Option String := none
  /-- Whether a value is acceptable. -/
  accepts : String → Bool := fun _ => true
  about : String

/-- What a command takes. -/
structure Usage where
  /-- The name of the program and of the commands down to this one. -/
  path : List String
  about : String
  switches : List Switch := []
  /-- The name of the operands, if the command takes any, and what they are. -/
  operands : Option (String × String) := none
  /-- The subcommands, and what they do. -/
  subcommands : List (String × String) := []

/-- The switches that were given, each with its value; without one it is empty. -/
abbrev Given := List (String × String)

/-- What the arguments of a command say. -/
inductive Scan where
  | faulty
  | help
  | version
  | plain (given : Given) (operands : List String)
  | descend (subcommand : String) (given : Given) (rest : List String)
  deriving DecidableEq, Repr

/-- What comes of an argument of switches. -/
inductive Switched where
  | faulty
  | help
  | version
  | given (g : Given)
  /-- The value of a switch is yet to come. -/
  | awaiting (s : Switch)

namespace Usage

def named? (u : Usage) (name : String) : Option Switch :=
  u.switches.find? (·.name == name)

def lettered? (u : Usage) (c : Char) : Option Switch :=
  u.switches.find? (·.letter == some c)

/-- Adds a switch with its value, unless it was given before or the value is not acceptable. -/
def add? (given : Given) (s : Switch) (value : String) : Option Given :=
  if s.accepts value && given.all (·.1 != s.name) then some (given ++ [(s.name, value)]) else none

/-- What comes of a switch with a value attached to it. -/
def attached (given : Given) (s : Switch) (value : String) : Switched :=
  if s.value.isNone then .faulty else (add? given s value).elim .faulty .given

def long (u : Usage) (given : Given) (text : List Char) : Switched :=
  let name := String.ofList (text.takeWhile (· != '='))
  let value := if text.contains '=' then some (String.ofList ((text.dropWhile (· != '=')).drop 1))
    else none
  match u.named? name, value with
  | some s, some v => attached given s v
  | some s, none => if s.value.isSome then .awaiting s else (add? given s "").elim .faulty .given
  | none, some _ => .faulty
  | none, none =>
    if name == "help" then .help else if name == "version" then .version else .faulty

/-- The letters after one hyphen. The first that takes a value takes what is left. -/
def short (u : Usage) (given : Given) : List Char → Switched
  | [] => .given given
  | c :: rest =>
    match u.lettered? c with
    | some s =>
      if s.value.isSome then
        if rest.isEmpty then .awaiting s
        else attached given s (String.ofList (if rest.head? == some '=' then rest.drop 1 else rest))
      else
        match add? given s "" with
        | some given => short u given rest
        | none => .faulty
    | none => if c == 'h' then .help else if c == 'V' then .version else .faulty

/-- Whether an argument is one of switches. -/
def isSwitch (argument : String) : Bool :=
  argument.toList.head? == some '-' && argument != "-"

/-- Sorts out arguments after some switches and operands; `awaiting` is a switch whose value comes
next. -/
def scanFrom (u : Usage) (awaiting : Option Switch) (given : Given) (operands : List String) :
    List String → Scan
  | [] => if awaiting.isSome then .faulty else .plain given operands
  | a :: rest =>
    match awaiting with
    | some s =>
      if isSwitch a then .faulty
      else
        match add? given s a with
        | some given => scanFrom u none given operands rest
        | none => .faulty
    | none =>
      if a == "--" then
        if rest.isEmpty || u.operands.isSome then .plain given (operands ++ rest) else .faulty
      else if isSwitch a then
        let switched := match a.toList with
          | '-' :: '-' :: text => u.long given text
          | _ :: letters => u.short given letters
          | [] => .faulty
        match switched with
        | .faulty => .faulty
        | .help => .help
        | .version => .version
        | .given given => scanFrom u none given operands rest
        | .awaiting s => scanFrom u (some s) given operands rest
      else if !u.subcommands.isEmpty && a == "help" then .help
      else if u.subcommands.any (·.1 == a) then .descend a given rest
      else if u.operands.isSome then scanFrom u none given (operands ++ [a]) rest
      else .faulty

/-- Sorts out the arguments of a command. -/
def scan (u : Usage) (arguments : List String) : Scan :=
  u.scanFrom none [] [] arguments

/-! ## Help -/

/-- Filled with blanks up to a width. -/
def filled (width : Nat) (s : String) : String :=
  s ++ String.ofList (List.replicate (width - s.length) ' ')

/-- Lines of two columns, moved to the right by two places. -/
def columns (rows : List (String × String)) : String :=
  let width := (rows.map (·.1.length)).foldl max 0
  String.join (rows.map fun r => "  " ++ filled width r.1 ++ "  " ++ r.2 ++ "\n")

def Switch.form (s : Switch) : String :=
  s.letter.elim "    " (fun c => "-" ++ c.toString ++ ", ") ++ "--" ++ s.name ++
    s.value.elim "" fun v => " <" ++ v ++ ">"

def usualSwitches : List Switch :=
  [{ name := "help", letter := some 'h', about := "Print help (see more with '--help')" },
    { name := "version", letter := some 'V', about := "Print version" }]

/-- The subcommand that every command with subcommands has. -/
def helpCommand : String × String :=
  ("help", "Print this message or the help of the given subcommand(s)")

def help (u : Usage) : String :=
  let commands := if u.subcommands.isEmpty then "" else
    "Commands:\n" ++ columns (u.subcommands ++ [helpCommand]) ++ "\n"
  let arguments := u.operands.elim "" fun o =>
    "Arguments:\n" ++ columns [("<" ++ o.1 ++ ">...", o.2)] ++ "\n"
  let form := " ".intercalate u.path ++ " [OPTIONS]" ++
    (if u.subcommands.isEmpty then "" else " <COMMAND>") ++
    u.operands.elim "" fun o => " <" ++ o.1 ++ ">..."
  u.about ++ "\n\nUsage: " ++ form ++ "\n\n" ++ commands ++ arguments ++ "Options:\n" ++
    columns ((u.switches ++ usualSwitches).map fun s => (Switch.form s, s.about))

end Usage

end PlainSteps.Command
