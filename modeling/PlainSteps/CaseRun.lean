import PlainSteps.Sentence.Classify
import PlainSteps.Session
import PlainSteps.Step

/-!
# Running a case

* `CaseRun.runStep` : carries out one action and says what became of it.
* `CaseRun.runSteps` : the steps of a case in order, up to the first that fails. Each sentence is read
  with the variables as they are by then.
* `CaseRun.run` : a case under its deadline. A step that the deadline interrupts leaves no result.
-/

namespace PlainSteps

/-- What the cases of a run have in common. -/
structure CaseRunner where
  rules : Sentence.Rules
  resolve : Resolver
  execution : ExecutionSettings
  evidence : EvidenceSettings
  runId : String
  /-- The page that relative addresses refer to. -/
  baseUrl : String

/-- A runner with the settings of a run. -/
def CaseRunner.ofSettings (s : Settings) (resolve : Resolver) (runId baseUrl : String) :
    CaseRunner where
  rules := ⟨s.execution.maxConditionalDepth.toNat, s.execution.defaultWaitSecs⟩
  resolve
  execution := s.execution
  evidence := s.evidence
  runId
  baseUrl

/-- What the steps of a case with an identifier have in common. -/
def CaseRunner.context (r : CaseRunner) (caseId : String) : Step.Context where
  resolve := r.resolve
  execution := r.execution
  baseUrl := r.baseUrl
  evidence :=
    if r.evidence.captureScreenshots then
      some (Evidence.folder r.evidence.outputDir r.runId caseId)
    else none

/-- The results of steps, how the steps ended, and the session afterwards. -/
structure StepsRun (σ : Type) where
  steps : List StepResult
  ending : Ended Termination
  session : Session σ

namespace CaseRun

variable {σ : Type}

/-- Carries out one action: its result and the variables afterwards. -/
def runStep (x : Step.Context) (w : World σ) (deadline : Option Nat) (index : Nat)
    (description : String) (action : Action) (vars : Variables) (s : Session σ) :
    Ended (StepResult × Variables) × Session σ :=
  let begun := StepResult.begun index description (s.moment w)
  match (Step.perform x action vars).run w deadline s with
  | (.halted h, t) => (.halted h, t)
  | (.done (verdict, vars), t) =>
    let result := begun.judged verdict (t.moment w) (t.now - s.now)
    match (Step.close x index).run w deadline t with
    | (.halted h, u) => (.halted h, u)
    | (.done screenshot, u) => (.done ({ result with screenshot }, vars), u)

def publish (r : CaseRunner) (caseId : String) (result : StepResult) (s : Session σ) : Session σ :=
  s.publish ⟨r.runId, caseId, result⟩

/-- The steps of a case from one of them on, up to the first that fails. -/
def runSteps (r : CaseRunner) (w : World σ) (deadline : Option Nat) (caseId : String) :
    List String → Nat → Variables → Session σ → StepsRun σ
  | [], _, _, s => ⟨[], .done .completed, s⟩
  | raw :: rest, index, vars, s =>
    let text := vars.substitute raw
    let description := Sentence.normalize text
    let action := Sentence.classify r.rules text
    let s := publish r caseId (.begun index description (s.moment w)) s
    match runStep (r.context caseId) w deadline index description action vars s with
    | (.halted h, s) => ⟨[], .halted h, s⟩
    | (.done (result, vars), s) =>
      let (network, s) := s.drain
      let result := { result with network }
      let s := publish r caseId result s
      if result.isFail then ⟨[result], .done .aborted, s⟩
      else
        let others := runSteps r w deadline caseId rest (index + 1) vars s
        { others with steps := result :: others.steps }

/-- The error of a case whose time was over. -/
def deadlineMessage (seconds : Nat) : String :=
  "Case exceeded its " ++ toString seconds ++ "s deadline"

/-- The time at which a case is over that starts now. -/
def deadline (r : CaseRunner) (s : Session σ) : Nat :=
  s.now + min Session.longest r.execution.caseTimeout

/-- Runs a case. It starts without variables; responses are noted from its start to its end, if they
are wanted. A case without any time of its own may be over before its first step. -/
def run (r : CaseRunner) (w : World σ) (c : TestCase) (s : Session σ) :
    Ended CaseResult × Session σ :=
  let due := deadline r s
  let begun := s.capture r.evidence.captureNetwork
  let all :=
    if s.now < due || w.lenient due then runSteps r w (some due) c.id c.steps 0 .empty begun
    else ⟨[], .halted .deadline, begun⟩
  let finish (termination : Termination) (error : Option String) : Ended CaseResult × Session σ :=
    let t := all.session.capture false
    (.done (.ofSteps c all.steps termination error (s.moment w) (t.moment w) (t.now - s.now)), t)
  match all.ending with
  | .done termination => finish termination none
  | .halted .deadline =>
    finish .timedOut (some (deadlineMessage r.execution.caseTimeoutSecs.toNat))
  | .halted h => (.halted h, all.session)

end CaseRun

end PlainSteps
