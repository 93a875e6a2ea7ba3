import PlainSteps.Command.Usage
import PlainSteps.Report
import PlainSteps.Settings

/-!
# What the program is asked to do

* `Invocation` : what a command line asks for, with all choices made.
* `Invocation.parse` : the request in the arguments. An environment variable stands in for a switch
  that is not given.
* `Refusal` : why there is nothing to do: help, the version, or arguments that make no sense.
-/

namespace PlainSteps.Command

/-! ## Requests -/

/-- What a run of cases is asked for. -/
structure RunOptions where
  cases : String
  url : String
  tag : Option String
  caseId : Option String
  output : Option String
  browser : Option BrowserKind
  headed : Bool
  noScreenshots : Bool
  network : Bool
  evidenceDir : Option String
  deriving DecidableEq, Repr

/-- The work asked for. -/
inductive Task where
  | run (options : RunOptions)
  | classify (steps : List String)
  | showSettings
  | initSettings (force : Bool)
  | version
  deriving DecidableEq, Repr

/-- What a command line asks for. -/
structure Invocation where
  /-- The settings file. -/
  config : String
  format : Format
  task : Task
  deriving DecidableEq, Repr

/-- The paths of files that are read or written on behalf of an invocation. -/
def Invocation.files (i : Invocation) : List String :=
  match i.task with
  | .run options => i.config :: options.output.toList
  | _ => [i.config]

/-- The paths where an invocation looks for case files. -/
def Invocation.folders (i : Invocation) : List String :=
  match i.task with
  | .run options => [options.cases]
  | _ => []

/-- Why there is nothing to do. -/
inductive Refusal where
  | faulty
  /-- The version of the command with a path is asked for. -/
  | version (path : List String)
  /-- Help is asked for. -/
  | help (text : String)
  /-- A subcommand is missing, and help is given instead. -/
  | incomplete (text : String)
  deriving DecidableEq, Repr

/-! ## Commands -/

def programName : String := "stepwise"

def programVersion : String := "0.1.0"

def usualConfig : String := "stepwise.toml"

/-- The variable that names the settings file. -/
def configVariable : String := "STEPWISE_CONFIG"

/-- The variable that holds the address of the page under test. -/
def urlVariable : String := "STEPWISE_TARGET_URL"

/-- The switches that may stand before and after any subcommand. -/
def globalSwitches (env : Environment) : List Switch :=
  [{ name := "config", value := some "CONFIG", accepts := fun v => !v.isEmpty
     about := "Configuration file [env: " ++ configVariable ++ "=" ++
       (env.get? configVariable).getD "" ++ "] [default: " ++ usualConfig ++ "]" },
    { name := "format", value := some "FORMAT", accepts := fun v => (Format.ofWord? v).isSome
      about := "Output format [default: table] [possible values: table, json, yaml]" },
    { name := "verbose", letter := some 'v', about := "Enable verbose output" },
    { name := "log-json", about := "Emit logs as JSON lines" }]

def isBrowser (v : String) : Bool :=
  match BrowserKind.parse v with
  | .ok _ => true
  | .error _ => false

def runSwitches (env : Environment) : List Switch :=
  [{ name := "cases", letter := some 'c', value := some "CASES", accepts := fun v => !v.isEmpty
     about := "Case file, or directory searched for .yaml/.yml/.json case files [default: cases]" },
    { name := "url", letter := some 'u', value := some "URL"
      about := "URL opened before the first case [env: " ++ urlVariable ++ "=" ++
        (env.get? urlVariable).getD "" ++ "]" },
    { name := "tag", letter := some 't', value := some "TAG"
      about := "Run only cases carrying this tag" },
    { name := "case", value := some "CASE_ID", about := "Run only the case with this id" },
    { name := "output", letter := some 'o', value := some "OUTPUT", accepts := fun v => !v.isEmpty
      about := "Write the JSON report here" },
    { name := "browser", value := some "BROWSER", accepts := isBrowser
      about := "Browser engine (chromium, firefox)" },
    { name := "headed", about := "Show the browser window when the environment allows it" },
    { name := "no-screenshots", about := "Skip screenshot evidence" },
    { name := "network", about := "Record network responses per step" },
    { name := "evidence-dir", value := some "EVIDENCE_DIR", accepts := fun v => !v.isEmpty
      about := "Directory for screenshot evidence" }]

def rootUsage (env : Environment) : Usage where
  path := [programName]
  about := "Command-line runner for Stepwise natural-language browser tests"
  switches := globalSwitches env
  subcommands := [
    ("run", "Run test cases against a target URL"),
    ("classify", "Show how step sentences are classified and resolved"),
    ("config", "Inspect or create the configuration file"),
    ("version", "Show version information")]

def configUsage (env : Environment) : Usage where
  path := [programName, "config"]
  about := "Inspect or create the configuration file"
  switches := globalSwitches env
  subcommands := [
    ("show", "Print the effective configuration (file plus environment overrides)"),
    ("init", "Write a configuration file populated with defaults")]

def runUsage (env : Environment) : Usage where
  path := [programName, "run"]
  about := "Run test cases against a target URL"
  switches := runSwitches env ++ globalSwitches env

def classifyUsage (env : Environment) : Usage where
  path := [programName, "classify"]
  about := "Show how step sentences are classified and resolved"
  switches := globalSwitches env
  operands := some ("STEPS", "Step sentences to classify")

/-- A command without switches of its own. -/
def bareUsage (env : Environment) (path : List String) (about : String) : Usage where
  path
  about
  switches := globalSwitches env

def initUsage (env : Environment) : Usage where
  path := [programName, "config", "init"]
  about := "Write a configuration file populated with defaults"
  switches := { name := "force", about := "Overwrite an existing file" } :: globalSwitches env

/-! ## Reading the arguments -/

/-- The value of a switch among those given. -/
def given? (given : Given) (name : String) : Option String :=
  (given.find? (·.1 == name)).map (·.2)

def isGiven (given : Given) (name : String) : Bool :=
  (given? given name).isSome

/-- The value of a switch at the innermost command where it was given. -/
def innermost? (levels : List Given) (name : String) : Option String :=
  levels.reverse.findSome? (given? · name)

/-- The choices that concern all commands, given at one level after the other. The variable stands
in where the settings file is not given, and must then not be empty. -/
def globals? (env : Environment) (levels : List Given) : Option (String × Format) :=
  let substitute := env.get? configVariable
  if substitute == some "" && levels.any (fun g => !isGiven g "config") then none
  else
    some (((innermost? levels "config").or substitute).getD usualConfig,
      ((innermost? levels "format").bind Format.ofWord?).getD .table)

/-- The options of a run. The address must be given, or be in the environment. -/
def runOptions? (env : Environment) (given : Given) : Option RunOptions :=
  ((given? given "url").or (env.get? urlVariable)).map fun url =>
    { cases := (given? given "cases").getD "cases"
      url
      tag := given? given "tag"
      caseId := given? given "case"
      output := given? given "output"
      browser := (given? given "browser").bind fun v => (BrowserKind.parse v).toOption
      headed := isGiven given "headed"
      noScreenshots := isGiven given "no-screenshots"
      network := isGiven given "network"
      evidenceDir := given? given "evidence-dir" }

/-- Reads the arguments of a command that has no subcommand; `outer` holds the switches given before
it. -/
def finish (env : Environment) (u : Usage) (outer : List Given) (arguments : List String)
    (task? : Given → List String → Option Task) : Except Refusal Invocation :=
  match u.scan arguments with
  | .help => .error (.help u.help)
  | .version => .error (.version u.path)
  | .faulty | .descend _ _ _ => .error .faulty
  | .plain given operands =>
    match task? given operands, globals? env (outer ++ [given]) with
    | some task, some (config, format) => .ok ⟨config, format, task⟩
    | _, _ => .error .faulty

/-- What to say when a subcommand is missing: help, unless something else was given. -/
def missing (env : Environment) (u : Usage) (given : Given) : Refusal :=
  if given.isEmpty && (env.get? configVariable).isNone then .incomplete u.help else .faulty

/-- Reads the arguments of a command on settings. -/
def parseConfig (env : Environment) (outer : List Given) (arguments : List String) :
    Except Refusal Invocation :=
  let u := configUsage env
  match u.scan arguments with
  | .help => .error (.help u.help)
  | .version => .error (.version u.path)
  | .faulty => .error .faulty
  | .plain given _ => .error (missing env u given)
  | .descend "init" given rest =>
    finish env (initUsage env) (outer ++ [given]) rest fun g _ =>
      some (.initSettings (isGiven g "force"))
  | .descend name given rest =>
    finish env (bareUsage env (u.path ++ [name])
      "Print the effective configuration (file plus environment overrides)")
      (outer ++ [given]) rest fun _ _ => some .showSettings

/-- What the arguments of the program ask for. -/
def Invocation.parse (env : Environment) (arguments : List String) : Except Refusal Invocation :=
  let u := rootUsage env
  match u.scan arguments with
  | .help => .error (.help u.help)
  | .version => .error (.version u.path)
  | .faulty => .error .faulty
  | .plain given _ => .error (missing env u given)
  | .descend name given rest =>
    match name with
    | "run" =>
      finish env (runUsage env) [given] rest fun g _ => (runOptions? env g).map .run
    | "classify" =>
      finish env (classifyUsage env) [given] rest fun _ steps =>
        if steps.isEmpty then none else some (.classify steps)
    | "config" => parseConfig env [given] rest
    | _ =>
      finish env (bareUsage env [programName, "version"] "Show version information") [given] rest
        fun _ _ => some .version

end PlainSteps.Command
