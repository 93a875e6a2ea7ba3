import PlainSteps.Proofs.CaseSteps
import PlainSteps.Run

/-!
# Which requests are made

* `Action.targets` : the targets of an action, those of the conditions around it included.
* `Step.asks_perform` : an action asks for elements by the locators of its targets.

Only a run launches a browser and closes it. Its other parts, the login and the cases, make requests
to the page that is open (`Call.Inside`), so

* `CaseRun.run_inside` : a case notes no launching and no closing;
* `CaseRun.run_answering` : a case does not depend on what becomes of launching and closing.
-/

namespace PlainSteps

variable {σ α : Type}

/-- A request that neither launches the browser nor closes it. -/
def Call.Inside : Call → Prop
  | .launch _ | .close => False
  | _ => True

/-- A request for an image of the page. -/
def Call.isScreenshot : Call → Bool
  | .screenshot _ => true
  | _ => false

/-- An event that neither launches the browser nor closes it. -/
def Event.Inside : Event → Prop
  | .call _ c => c.Inside
  | .capture _ _ => True

/-! ## Routines -/

namespace Routine

variable {P : Call → Prop}

theorem asks_request {c : Call} (h : P c) : (request c).Asks P := by
  refine ⟨h, fun reply => ?_⟩
  cases reply <;> trivial

theorem asks_bounded {operation : String} {timeout : Nat} {c : Call} (h : P c) :
    (bounded operation timeout c).Asks P := by
  refine ⟨h, fun reply => ?_⟩
  cases reply <;> trivial

theorem asks_rest (ms : Nat) : (rest ms).Asks P := by
  unfold rest
  split <;> trivial

/-- A routine does not depend on what becomes of requests that it does not make. -/
theorem run_answering {w : World σ} {answer : σ → Nat → Call → Answer σ}
    (hw : ∀ page time c, P c → answer page time c = w.answer page time c) {r : Routine α}
    (hr : r.Asks P) (deadline : Option Nat) (s : Session σ) :
    r.run { w with answer } deadline s = r.run w deadline s := by
  induction r generalizing s with
  | done a => rfl
  | call c limit next ih =>
    have hask : s.ask { w with answer } deadline c limit = s.ask w deadline c limit := by
      simp only [Session.ask, Session.made, Session.awaited, hw s.page s.now c hr.1]
      rfl
    rw [run_call, run_call, hask]
    rcases s.ask w deadline c limit with ⟨reply | h, t⟩
    · exact ih reply (hr.2 reply) t
    · rfl
  | pause ms next ih =>
    have helapse : s.elapse { w with answer } deadline (min Session.longest ms) =
        s.elapse w deadline (min Session.longest ms) := rfl
    simp only [run, helapse]
    split
    · exact ih hr _
    · rfl
  | save path bytes next ih =>
    simp only [run]
    split
    · exact ih true (hr true) _
    · exact ih false (hr false) _

end Routine

/-! ## Targets -/

namespace Action

/-- The targets of the conditions around an action, the outermost first. -/
def conditions : Action → List Target
  | conditional target _ consequence => target :: consequence.conditions
  | navigate _ | click _ | fill _ _ | store _ _ | waitFor _ _ | waitForLoad | waitDuration _
  | verify _ | unknown _ => []

/-- The targets of an action: those of the conditions around it, and its own. -/
def targets (action : Action) : List Target :=
  action.conditions ++ (action.subject?.map (·.1)).toList

/-- A request that an action makes: to the page that is open, and if it names an element, then by a
locator of one of the targets. -/
def Makes (x : Step.Context) (action : Action) (c : Call) : Prop :=
  c.Inside ∧ ∀ l ∈ c.locator?, ∃ target ∈ action.targets, ∃ kind,
    l ∈ (Step.locators x kind target).1

section Makes

variable {x : Step.Context} {action : Action} {c : Call}

theorem makes_of_locator (hc : c.Inside) {l : String} (hl : c.locator? = some l) {kind : ActionKind}
    {target : Target} (htarget : target ∈ action.targets)
    (h : l ∈ (Step.locators x kind target).1) : action.Makes x c := by
  refine ⟨hc, fun l' hl' => ⟨target, htarget, kind, ?_⟩⟩
  obtain rfl : l = l' := Option.some.inj (hl.symm.trans hl')
  exact h

theorem makes_of_none (hc : c.Inside) (hl : c.locator? = none) : action.Makes x c :=
  ⟨hc, fun _ h => nomatch hl.symm.trans h⟩

end Makes

end Action

/-! ## Steps -/

namespace Step

open Routine

section asks

variable {P : Call → Prop} {x : Context} {kind : ActionKind} {target : Target}

theorem asks_attempts {timeout : Nat} {ask : String → Call} {ls : List String}
    (h : ∀ l ∈ ls, P (ask l)) : (attempts kind target timeout ask ls).Asks P := by
  induction ls with
  | nil => trivial
  | cons l ls ih =>
    refine asks_bind (asks_bounded (h l List.mem_cons_self)) fun result => ?_
    rcases result with e | v
    · simp only
      split
      · trivial
      · exact ih fun l' hl' => h l' (List.mem_cons_of_mem l hl')
    · trivial

theorem asks_onTarget {ask : String → Nat → Call}
    (h : ∀ l ∈ (locators x kind target).1, ∀ timeout, P (ask l timeout)) :
    (onTarget x kind target ask).Asks P :=
  asks_attempts fun l hl => h l hl _

theorem asks_element {ask : String → Nat → Call}
    (h : ∀ l ∈ (locators x kind target).1, ∀ timeout, P (ask l timeout)) :
    (element x kind target ask).Asks P := by
  refine asks_bind (asks_onTarget h) fun result => ?_
  cases result <;> trivial

theorem asks_present {state : ElementState} {operation : String} {explain : BrowserError → StepError}
    (h : ∀ l ∈ (locators x kind target).1, ∀ timeout, P (.waitFor l state timeout)) :
    (present x kind target state operation explain).Asks P := by
  unfold present
  split
  · trivial
  · rename_i l hl
    refine asks_bind (asks_bounded (h l (List.mem_of_head? hl) _)) fun result => ?_
    cases result <;> trivial

theorem asks_probe {state : ElementState}
    (h : ∀ l ∈ (locators x .conditional target).1, ∀ timeout, P (.waitFor l state timeout)) :
    (probe x target state).Asks P := by
  unfold probe
  split
  · trivial
  · rename_i l hl
    refine asks_bind (asks_bounded (h l (List.mem_of_head? hl) _)) fun result => ?_
    cases result <;> trivial

theorem asks_whole {operation : String} {timeout : Nat} {c : Call} (h : P c) :
    (whole operation timeout c).Asks P := by
  refine asks_bind (asks_bounded h) fun result => ?_
  cases result <;> trivial

end asks

/-- An action makes requests for elements, by the locators of its targets, and requests to the page that
is open for anything but an image of it. -/
theorem asks_perform_of {P : Call → Prop} (x : Context) {action : Action} (vars : Variables)
    (hpage : ∀ c : Call, c.Inside → c.isScreenshot = false → c.locator? = none → P c)
    (helement : ∀ c : Call, c.Inside → ∀ target ∈ action.targets, ∀ kind,
      ∀ l ∈ (locators x kind target).1, c.locator? = some l → P c) :
    (perform x action vars).Asks P := by
  induction action with
  | navigate url => exact asks_bind (asks_whole (hpage _ trivial rfl rfl)) fun _ => trivial
  | click target =>
    refine asks_bind (asks_element fun l hl timeout => ?_) fun _ => trivial
    exact helement _ trivial target List.mem_cons_self _ l hl rfl
  | fill value target =>
    refine asks_bind (asks_element fun l hl timeout => ?_) fun _ => trivial
    exact helement _ trivial target List.mem_cons_self _ l hl rfl
  | store source name =>
    refine asks_bind (asks_onTarget fun l hl timeout => ?_) fun result => ?_
    · exact helement _ trivial source List.mem_cons_self _ l hl rfl
    · cases result <;> trivial
  | verify target =>
    refine asks_bind (asks_present fun l hl timeout => ?_) fun _ => trivial
    exact helement _ trivial target List.mem_cons_self _ l hl rfl
  | waitFor target state =>
    refine asks_bind (asks_present fun l hl timeout => ?_) fun _ => trivial
    exact helement _ trivial target List.mem_cons_self _ l hl rfl
  | waitForLoad => exact asks_bind (asks_whole (hpage _ trivial rfl rfl)) fun _ => trivial
  | waitDuration seconds =>
    simp only [perform]
    split <;> trivial
  | conditional target condition consequence ih =>
    refine asks_bind (asks_probe fun l hl timeout => ?_) fun holds => ?_
    · exact helement _ trivial target List.mem_cons_self _ l hl rfl
    · cases holds with
      | false => trivial
      | true => exact ih fun c hc target' htarget => helement c hc target' (List.mem_cons_of_mem _ htarget)
  | unknown text => trivial

theorem asks_perform (x : Context) (action : Action) (vars : Variables) :
    (perform x action vars).Asks (action.Makes x) :=
  asks_perform_of x vars (fun _ hc _ hl => Action.makes_of_none hc hl)
    fun _ hc _ htarget _ _ hl hlocator => Action.makes_of_locator hc hlocator htarget hl

theorem asks_perform_unshot (x : Context) (action : Action) (vars : Variables) :
    (perform x action vars).Asks fun c => c.isScreenshot = false := by
  refine asks_perform_of x vars (fun _ _ hshot _ => hshot) ?_
  intro c _ _ _ _ l _ hlocator
  cases c with
  | screenshot fullPage => cases hlocator
  | _ => rfl

theorem asks_perform_inside (x : Context) (action : Action) (vars : Variables) :
    (perform x action vars).Asks Call.Inside :=
  (asks_perform x action vars).mono fun _ h => h.1

theorem asks_close {P : Call → Prop} (x : Context) (index : Nat) (h : P (.screenshot true)) :
    (close x index).Asks P := by
  have hshot : ∀ folder, (takeScreenshot folder index).Asks P := by
    intro folder
    refine asks_bind (asks_request h) fun result => ?_
    cases result with
    | error e => trivial
    | ok v => exact fun _ => trivial
  unfold close
  refine asks_bind ?_ fun shot => asks_bind (asks_rest _) fun _ => trivial
  split
  · exact hshot _
  · trivial

end Step

/-! ## Logging in and setting up -/

namespace Login

open Routine

theorem asks_first {P : Call → Prop} {ask : String → Call} {locators : List String}
    (h : ∀ l ∈ locators, P (ask l)) : (first ask locators).Asks P := by
  induction locators with
  | nil => trivial
  | cons l ls ih =>
    obtain ⟨hl, hls⟩ := List.forall_mem_cons.mp h
    refine asks_bind (asks_request hl) fun result => ?_
    cases result with
    | error e => exact ih hls
    | ok v => trivial

theorem asks_stage {P : Call → Prop} {reason : String} {ask : String → Call} (h : ∀ l, P (ask l))
    (locators : List String) {next : Routine (Except RunError Unit)} (hnext : next.Asks P) :
    (stage reason ask locators next).Asks P := by
  refine asks_bind (asks_first fun l _ => h l) fun worked => ?_
  cases worked with
  | false => trivial
  | true => exact hnext

theorem asks_perform (login : LoginSettings) (targetUrl : String) (navigationTimeout : Nat) :
    (perform login targetUrl navigationTimeout).Asks Call.Inside := by
  refine asks_bind (asks_request trivial) fun result => ?_
  cases result with
  | error e => trivial
  | ok v =>
    refine asks_stage (fun _ => trivial) _ (asks_stage (fun _ => trivial) _ ?_)
    exact asks_stage (fun _ => trivial) _ (asks_bind (asks_request trivial) fun _ => trivial)

end Login

theorem Run.asks_setUp (r : Run) : r.setUp.Asks Call.Inside := by
  refine Routine.asks_bind (Routine.asks_request trivial) fun opened => ?_
  cases opened with
  | error e => trivial
  | ok v =>
    refine Routine.asks_bind ?_ fun ready => ?_
    · split
      · exact Login.asks_perform _ _ _
      · trivial
    · cases ready with
      | error e => trivial
      | ok u =>
        refine Routine.asks_bind (Routine.asks_request trivial) fun result => ?_
        cases result <;> trivial

/-! ## Events -/

/-- Since then the browser was neither launched nor closed. -/
def Session.Inside (s t : Session σ) : Prop :=
  ∃ made, t.events = s.events ++ made ∧ ∀ e ∈ made, e.Inside

namespace Session.Inside

theorem refl (s : Session σ) : s.Inside s :=
  ⟨[], by simp, by simp⟩

theorem trans {s t u : Session σ} (h : s.Inside t) (h' : t.Inside u) : s.Inside u := by
  obtain ⟨made, he, hmade⟩ := h
  obtain ⟨more, he', hmore⟩ := h'
  refine ⟨made ++ more, by rw [he', he, List.append_assoc], ?_⟩
  intro e hmem
  rcases List.mem_append.mp hmem with hmem | hmem
  · exact hmade e hmem
  · exact hmore e hmem

theorem of_eq {s t : Session σ} (h : t.events = s.events) : s.Inside t :=
  ⟨[], by simp [h], by simp⟩

theorem capture (s : Session σ) (on : Bool) : s.Inside (s.capture on) :=
  ⟨[.capture s.now on], rfl, by simp [Event.Inside]⟩

end Session.Inside

theorem Routine.run_inside {r : Routine α} (hr : r.Asks Call.Inside) (w : World σ)
    (deadline : Option Nat) (s : Session σ) : s.Inside (r.run w deadline s).2 := by
  obtain ⟨made, he, hmade⟩ := run_events hr w deadline s
  refine ⟨made, he, fun e hmem => ?_⟩
  obtain ⟨time, c, rfl, hc⟩ := hmade e hmem
  exact hc

theorem Session.Inside.andThen {β : Type} {s : Session σ} {x : Ended α × Session σ}
    {f : α → Session σ → Ended β × Session σ} (hx : s.Inside x.2)
    (hf : ∀ a (t : Session σ), t.Inside (f a t).2) : s.Inside (Ended.andThen x f).2 := by
  rcases x with ⟨a | h, t⟩
  · exact hx.trans (hf a t)
  · exact hx

namespace CaseRun

theorem oneStep_inside (r : CaseRunner) (w : World σ) (deadline : Option Nat) (caseId raw : String)
    (index : Nat) (vars : Variables) (s : Session σ) :
    s.Inside (oneStep r w deadline caseId raw index vars s).2 := by
  have hbegin : s.Inside (beginStep r w caseId index
      (Sentence.normalize (vars.substitute raw)) s) := .of_eq rfl
  refine hbegin.trans (.andThen ?_ fun p t => .of_eq (by simp [endStep, publish]))
  rw [runStep_eq]
  refine .andThen (Routine.run_inside (Step.asks_perform_inside _ _ _) w deadline _) fun p t => ?_
  exact .andThen (Routine.run_inside (Step.asks_close _ _ trivial) w deadline t) fun _ u => .refl u

theorem runSteps_inside (r : CaseRunner) (w : World σ) (deadline : Option Nat) (caseId : String)
    (raws : List String) (index : Nat) (vars : Variables) (s : Session σ) :
    s.Inside (runSteps r w deadline caseId raws index vars s).session := by
  induction raws generalizing index vars s with
  | nil => exact .refl s
  | cons raw rest ih =>
    have hstep := oneStep_inside r w deadline caseId raw index vars s
    rw [runSteps_cons]
    rcases e : oneStep r w deadline caseId raw index vars s with ⟨⟨result, vars'⟩ | h, t⟩
    · rw [e] at hstep
      simp only
      split
      · exact hstep
      · exact hstep.trans (ih (index + 1) vars' t)
    · rw [e] at hstep
      exact hstep

theorem run_inside (r : CaseRunner) (w : World σ) (c : TestCase) (s : Session σ) :
    s.Inside (run r w c s).2 := by
  have hcarried : s.Inside (carried r w c s).session := by
    unfold carried
    split
    · exact (Session.Inside.capture s _).trans (runSteps_inside r w _ c.id c.steps 0 .empty _)
    · exact .capture s _
  rw [run_eq]
  split
  · exact hcarried.trans (.capture _ false)
  · exact hcarried.trans (.capture _ false)
  · exact hcarried

section answering

variable {w : World σ} {answer : σ → Nat → Call → Answer σ}

theorem runSteps_answering
    (hw : ∀ page time c, c.Inside → answer page time c = w.answer page time c) (r : CaseRunner)
    (deadline : Option Nat) (caseId : String) (raws : List String) (index : Nat) (vars : Variables)
    (s : Session σ) :
    runSteps r { w with answer } deadline caseId raws index vars s =
      runSteps r w deadline caseId raws index vars s := by
  induction raws generalizing index vars s with
  | nil => rfl
  | cons raw rest ih =>
    have hstep : oneStep r { w with answer } deadline caseId raw index vars s =
        oneStep r w deadline caseId raw index vars s := by
      simp only [oneStep, runStep_eq, Routine.run_answering hw (Step.asks_perform_inside _ _ _),
        Routine.run_answering hw (Step.asks_close _ _ trivial)]
      rfl
    rw [runSteps_cons, runSteps_cons, hstep]
    rcases oneStep r w deadline caseId raw index vars s with ⟨⟨result, vars'⟩ | h, t⟩
    · simp only [ih]
    · rfl

theorem run_answering
    (hw : ∀ page time c, c.Inside → answer page time c = w.answer page time c) (r : CaseRunner)
    (c : TestCase) (s : Session σ) : run r { w with answer } c s = run r w c s := by
  have hcarried : carried r { w with answer } c s = carried r w c s := by
    unfold carried
    rw [runSteps_answering hw]
  rw [run_eq, run_eq, hcarried]
  rfl

end answering

end CaseRun

end PlainSteps
