import PlainSteps.Browser.Scripted
import PlainSteps.Proofs.Requests

/-!
# The phases of a run

`Run.execute_course`: a run launches the browser first and once, closes it last and once if it was
launched and not at all otherwise, makes no request of a case before the page is ready, and reports
the cases that were finished, in order, with the error of the phase that went wrong (`Run.Course`).

There are five ways out of a run: the launch fails, setting up fails or breaks down, a case breaks
down, or all goes well. What each phase can come to is said once (`setUp_ok_iff`, `setUp_error`,
`runCases_all`, `runCases_broken`, `inside_cases`), and that no other phase launches or closes the
browser is read off the requests they make.
-/

namespace PlainSteps

variable {σ α : Type}

/-- The same world, but for how closing the browser ends. -/
def World.closing (w : World σ) (o : Outcome) : World σ :=
  { w with answer := fun page time c =>
      if c = .close then { w.answer page time c with outcome := o } else w.answer page time c }

/-- An event at which the browser is launched. -/
def Event.Launches (e : Event) : Prop := ∃ time options, e = .call time (.launch options)

/-- An event at which the browser is closed. -/
def Event.Closes (e : Event) : Prop := ∃ time, e = .call time .close

theorem Event.Inside.not_launches {e : Event} (h : e.Inside) : ¬e.Launches := by
  rintro ⟨time, options, rfl⟩
  exact h

theorem Event.Inside.not_closes {e : Event} (h : e.Inside) : ¬e.Closes := by
  rintro ⟨time, rfl⟩
  exact h

namespace Run

open Routine

/-! ## What the phases come to -/

/-- Without a deadline the routine succeeds. -/
def Succeeds {ε : Type} (w : World σ) (q : Routine (Except ε α)) (s t : Session σ) : Prop :=
  ∃ v, q.run w none s = (.done (.ok v), t)

/-- The browser is launched. -/
def Launched (r : Run) (w : World σ) (s t : Session σ) : Prop :=
  Succeeds w (request (.launch r.launch)) s t

/-- The login succeeds, if there is one. -/
def LoggedIn (r : Run) (w : World σ) (s t : Session σ) : Prop :=
  if r.settings.login.enabled then
    Succeeds w (Login.perform r.settings.login r.targetUrl
      r.settings.execution.navigationTimeout) s t
  else t = s

/-- The request that opens the page under test. -/
def target (r : Run) : Call :=
  .goto r.targetUrl .domContentLoaded r.settings.execution.navigationTimeout

/-- A page is opened, the login succeeds if there is one, and the page under test is opened. -/
def Ready (r : Run) (w : World σ) (s t : Session σ) : Prop :=
  ∃ u v, Succeeds w (request .openPage) s u ∧ LoggedIn r w u v ∧ Succeeds w (request r.target) v t

/-- Setting up goes wrong with an error. -/
inductive Unready (r : Run) (w : World σ) (s : Session σ) : RunError → Session σ → Prop
  | openPage {e : BrowserError} {t : Session σ}
      (h : (request .openPage).run w none s = (.done (.error e), t)) : Unready r w s (.openPage e) t
  | login {e : RunError} {t u : Session σ} (hopen : Succeeds w (request .openPage) s t)
      (hlogin : r.settings.login.enabled = true)
      (h : (Login.perform r.settings.login r.targetUrl
        r.settings.execution.navigationTimeout).run w none t = (.done (.error e), u)) :
      Unready r w s e u
  | navigation {e : BrowserError} {t u v : Session σ} (hopen : Succeeds w (request .openPage) s t)
      (hlogin : LoggedIn r w t u) (h : (request r.target).run w none u = (.done (.error e), v)) :
      Unready r w s (.navigation r.targetUrl e) v
  | breakdown {b : Breakdown} {t : Session σ}
      (h : r.setUp.run w none s = (.halted (.breakdown b), t)) :
      Unready r w s (.breakdown b.text) t

/-- The runner of the cases of a run. -/
def runner (r : Run) : CaseRunner :=
  CaseRunner.ofSettings r.settings r.resolve r.runId r.targetUrl

/-- Cases are carried out one after the other, each up to its result. -/
inductive InTurn (x : CaseRunner) (w : World σ) :
    List TestCase → List CaseResult → Session σ → Session σ → Prop
  | nil (s : Session σ) : InTurn x w [] [] s s
  | cons {c : TestCase} {cs : List TestCase} {result : CaseResult} {results : List CaseResult}
      {s t u : Session σ} (h : CaseRun.run x w c s = (.done result, t))
      (hrest : InTurn x w cs results t u) : InTurn x w (c :: cs) (result :: results) s u

/-- What the cases come to: all have results, or one breaks down after those before it. -/
inductive Went (x : CaseRunner) (w : World σ) (cases : List TestCase) (s : Session σ) :
    List CaseResult → Option RunError → Session σ → Prop
  | all {results : List CaseResult} {t : Session σ} (h : InTurn x w cases results s t) :
      Went x w cases s results none t
  | broken {finished rest : List TestCase} {c : TestCase} {results : List CaseResult}
      {b : Breakdown} {t u : Session σ} (hcases : cases = finished ++ c :: rest)
      (h : InTurn x w finished results s t) (hc : CaseRun.run x w c t = (.halted (.breakdown b), u)) :
      Went x w cases s results (some (.breakdown b.text)) u

/-- How a run goes that ends with a report. -/
structure Course (r : Run) (w : World σ) (cases : List TestCase) (s : Session σ)
    (report : RunReport) (t : Session σ) : Prop where
  /-- The launch is the first request and the only one of its kind. -/
  launch_first : ∃ rest, t.events = s.events ++ .call s.now (.launch r.launch) :: rest ∧
    ∀ e ∈ rest, ¬e.Launches
  /-- A browser that was launched is closed once, as the last thing. -/
  close_last : ∀ u, Launched r w s u → ∃ between time,
    t.events = u.events ++ between ++ [.call time .close] ∧ ∀ e ∈ between, ¬e.Closes
  /-- Without a browser there is no other request and no result. -/
  unlaunched : (∀ u, ¬Launched r w s u) →
    t.events = s.events ++ [.call s.now (.launch r.launch)] ∧ report.cases = [] ∧
      ∃ e, report.error = some (RunError.launch e).message
  /-- When the page does not get ready, the requests up to the close are those of setting up. -/
  unready : ∀ u, Launched r w s u → (∀ v, ¬Ready r w u v) → report.cases = [] ∧
    ∃ e x, Unready r w u e x ∧ report.error = some e.message ∧
      t.events = x.events ++ [.call x.now .close]
  /-- Once the page is ready the cases are run, and then the browser is closed. -/
  ready : ∀ u v, Launched r w s u → Ready r w u v → ∃ error x,
    Went r.runner w cases v report.cases error x ∧ report.error = error.map (·.message) ∧
      t.events = x.events ++ [.call x.now .close]
  /-- The cases reported are the first ones. -/
  ids : report.cases.map (·.caseId) <+: cases.map (·.id)
  /-- Without an error all cases are reported. -/
  all : report.error = none → report.cases.map (·.caseId) = cases.map (·.id)
  /-- How closing the browser ends does not matter, unless it breaks the program down. -/
  close_ignored : ∀ o, (∀ b, o ≠ .breakdown b) →
    execute r (w.closing o) cases s = (.done report, t)

/-! ## Setting up -/

section phases

variable {r : Run} {w : World σ} {s t : Session σ}

theorem loggedIn_iff : LoggedIn r w s t ↔
    (if r.settings.login.enabled then Login.perform r.settings.login r.targetUrl
      r.settings.execution.navigationTimeout else done (.ok ())).run w none s =
        (.done (.ok ()), t) := by
  unfold LoggedIn
  split
  · constructor
    · rintro ⟨_, h⟩
      exact h
    · intro h
      exact ⟨(), h⟩
  · simp only [run_done, Prod.mk.injEq, true_and]
    exact eq_comm

theorem setUp_ok_iff : r.setUp.run w none s = (.done (.ok ()), t) ↔ Ready r w s t := by
  constructor
  · intro h
    rw [setUp, run_bind] at h
    obtain ⟨opened, u, hopen, h⟩ := Ended.andThen_eq_done h
    rcases opened with e | page
    · cases h
    · rw [run_bind] at h
      obtain ⟨login, v, hlogin, h⟩ := Ended.andThen_eq_done h
      rcases login with e | ⟨⟩
      · cases h
      · rw [run_bind] at h
        obtain ⟨went, x, hgoto, h⟩ := Ended.andThen_eq_done h
        rcases went with e | value
        · cases h
        · cases h
          exact ⟨u, v, ⟨page, hopen⟩, loggedIn_iff.mpr hlogin, value, hgoto⟩
  · rintro ⟨u, v, ⟨page, hopen⟩, hlogin, value, hgoto⟩
    rw [setUp, run_bind, hopen]
    simp only [Ended.andThen_done]
    rw [run_bind, loggedIn_iff.mp hlogin]
    simp only [Ended.andThen_done]
    rw [run_bind]
    rw [target] at hgoto
    rw [hgoto]
    rfl

theorem setUp_error {e : RunError} (h : r.setUp.run w none s = (.done (.error e), t)) :
    Unready r w s e t := by
  rw [setUp, run_bind] at h
  obtain ⟨opened, u, hopen, h⟩ := Ended.andThen_eq_done h
  rcases opened with e' | page
  · cases h
    exact .openPage hopen
  · rw [run_bind] at h
    obtain ⟨login, v, hlogin, h⟩ := Ended.andThen_eq_done h
    rcases login with e' | ⟨⟩
    · cases h
      split at hlogin
      · rename_i henabled
        exact .login ⟨page, hopen⟩ henabled hlogin
      · cases hlogin
    · rw [run_bind] at h
      obtain ⟨went, x, hgoto, h⟩ := Ended.andThen_eq_done h
      rcases went with e' | value
      · cases h
        exact .navigation ⟨page, hopen⟩ (loggedIn_iff.mpr hlogin) hgoto
      · cases h

theorem Unready.not_ready {e : RunError} (h : Unready r w s e t) (v : Session σ) :
    ¬Ready r w s v := by
  intro hready
  have hok := setUp_ok_iff.mpr hready
  obtain ⟨u, v, ⟨page, hopen⟩, hlogin, value, hgoto⟩ := hready
  cases h with
  | openPage h => cases hopen.symm.trans h
  | login hopen' henabled h =>
    obtain ⟨page', hopen'⟩ := hopen'
    cases hopen.symm.trans hopen'
    rw [LoggedIn, if_pos henabled] at hlogin
    obtain ⟨_, hlogin⟩ := hlogin
    cases hlogin.symm.trans h
  | navigation hopen' hlogin' h =>
    obtain ⟨page', hopen'⟩ := hopen'
    cases hopen.symm.trans hopen'
    cases (loggedIn_iff.mp hlogin).symm.trans (loggedIn_iff.mp hlogin')
    cases hgoto.symm.trans h
  | breakdown h => cases hok.symm.trans h

/-! ## The cases -/

variable {x : CaseRunner} {cases : List TestCase} {results : List CaseResult}

theorem runCases_cons (x : CaseRunner) (w : World σ) (c : TestCase) (cs : List TestCase)
    (s : Session σ) : runCases x w (c :: cs) s =
      match CaseRun.run x w c s with
      | (.halted h, t) => ([], some h, t)
      | (.done result, t) =>
        (result :: (runCases x w cs t).1, (runCases x w cs t).2.1, (runCases x w cs t).2.2) := rfl

theorem runCases_all (h : runCases x w cases s = (results, none, t)) :
    InTurn x w cases results s t := by
  induction cases generalizing s results with
  | nil =>
    cases h
    exact .nil t
  | cons c cs ih =>
    rw [runCases_cons] at h
    rcases hrun : CaseRun.run x w c s with ⟨result | halt, u⟩
    · rcases hrest : runCases x w cs u with ⟨results', halt', v⟩
      simp only [hrun, hrest] at h
      cases h
      exact .cons hrun (ih hrest)
    · rw [hrun] at h
      cases h

theorem runCases_broken {halt : Halt} (h : runCases x w cases s = (results, some halt, t)) :
    ∃ finished c rest u, cases = finished ++ c :: rest ∧ InTurn x w finished results s u ∧
      CaseRun.run x w c u = (.halted halt, t) := by
  induction cases generalizing s results with
  | nil => cases h
  | cons c cs ih =>
    rw [runCases_cons] at h
    rcases hrun : CaseRun.run x w c s with ⟨result | halt', u⟩
    · rcases hrest : runCases x w cs u with ⟨results', halt', v⟩
      simp only [hrun, hrest] at h
      cases h
      obtain ⟨finished, c', rest, u', rfl, hturn, hbroken⟩ := ih hrest
      exact ⟨c :: finished, c', rest, u', rfl, .cons hrun hturn, hbroken⟩
    · rw [hrun] at h
      cases h
      exact ⟨[], c, cs, s, rfl, .nil s, hrun⟩

theorem caseId_of_run {c : TestCase} {result : CaseResult}
    (h : CaseRun.run x w c s = (.done result, t)) : result.caseId = c.id := by
  obtain ⟨termination, error, h⟩ := CaseRun.concluded_of_run h
  cases h
  rfl

theorem InTurn.ids (h : InTurn x w cases results s t) :
    results.map (·.caseId) = cases.map (·.id) := by
  induction h with
  | nil s => rfl
  | cons h _ ih => rw [List.map_cons, List.map_cons, caseId_of_run h, ih]

namespace Went

variable {error : Option RunError}

theorem ids (h : Went x w cases s results error t) :
    results.map (·.caseId) <+: cases.map (·.id) := by
  cases h with
  | all h => exact h.ids ▸ List.prefix_refl _
  | broken hcases h _ =>
    rw [hcases, h.ids, List.map_append]
    exact List.prefix_append _ _

theorem ids_of_none (h : Went x w cases s results none t) :
    results.map (·.caseId) = cases.map (·.id) := by
  cases h with
  | all h => exact h.ids

end Went

theorem runCases_inside (x : CaseRunner) (w : World σ) (cases : List TestCase) (s : Session σ) :
    s.Inside (runCases x w cases s).2.2 := by
  induction cases generalizing s with
  | nil => exact .refl s
  | cons c cs ih =>
    have hcase := CaseRun.run_inside x w c s
    rw [runCases_cons]
    rcases hrun : CaseRun.run x w c s with ⟨result | h, t⟩
    · rw [hrun] at hcase
      exact hcase.trans (ih t)
    · rw [hrun] at hcase
      exact hcase

/-! ## Between launch and close -/

theorem inside_cases {error : Option RunError}
    (h : inside r w cases s = (.done (results, error), t)) :
    (results = [] ∧ ∃ e, error = some e ∧ Unready r w s e t) ∨
      ∃ v, Ready r w s v ∧ Went r.runner w cases v results error t := by
  unfold inside at h
  split at h
  · rename_i b u hsetUp
    cases h
    exact .inl ⟨rfl, _, rfl, .breakdown hsetUp⟩
  · cases h
  · rename_i e u hsetUp
    cases h
    exact .inl ⟨rfl, e, rfl, setUp_error hsetUp⟩
  · rename_i u hsetUp
    right
    refine ⟨u, setUp_ok_iff.mp hsetUp, ?_⟩
    simp only at h
    split at h
    · rename_i results' b v hcases
      cases h
      obtain ⟨finished, c, rest, u', rfl, hturn, hbroken⟩ := runCases_broken hcases
      exact .broken rfl hturn hbroken
    · cases h
    · rename_i results' v hcases
      cases h
      exact .all (runCases_all hcases)

theorem inside_inside (r : Run) (w : World σ) (cases : List TestCase) (s : Session σ) :
    s.Inside (inside r w cases s).2 := by
  have hsetUp := Routine.run_inside r.asks_setUp w none s
  unfold inside
  split
  · rename_i h
    rwa [h] at hsetUp
  · rename_i h
    rwa [h] at hsetUp
  · rename_i h
    rwa [h] at hsetUp
  · rename_i t h
    rw [h] at hsetUp
    refine hsetUp.trans ?_
    have hcases := runCases_inside r.runner w cases t
    simp only
    split
    · rename_i h
      rwa [runner, h] at hcases
    · rename_i h
      rwa [runner, h] at hcases
    · rename_i h
      rwa [runner, h] at hcases

/-! ## The whole run -/

/-- The report on a run that began in one session and ended in another. -/
def reported (r : Run) (w : World σ) (s : Session σ) (results : List CaseResult)
    (error : Option RunError) (t : Session σ) : RunReport :=
  .ofCases r.runId r.targetUrl results (error.map (·.message)) (s.moment w) (t.moment w)
    (t.now - s.now)

/-- A run once the browser is launched. -/
def launched (r : Run) (w : World σ) (cases : List TestCase) (s t : Session σ) :
    Ended RunReport × Session σ :=
  Ended.andThen (inside r w cases t) fun p u =>
    Ended.andThen ((request .close).run w none u) fun _ v => (.done (reported r w s p.1 p.2 v), v)

theorem execute_eq (r : Run) (w : World σ) (cases : List TestCase) (s : Session σ) :
    execute r w cases s =
      Ended.andThen ((request (.launch r.launch)).run w none s) fun
        | .error e => fun t => (.done (reported r w s [] (some (.launch e)) t), t)
        | .ok _ => launched r w cases s := by
  unfold execute launched
  rcases (request (.launch r.launch)).run w none s with ⟨(e | v) | h, t⟩
  · rfl
  · simp only [Ended.andThen_done]
    rcases inside r w cases t with ⟨p | h, u⟩
    · simp only [Ended.andThen_done]
      rcases (request .close).run w none u with ⟨reply | h, v⟩ <;> rfl
    · rfl
  · rfl

/-- A run with a report did not get a browser, or it launched one, went through what is inside, and
closed it. -/
theorem execute_done {report : RunReport} (h : execute r w cases s = (.done report, t)) :
    (∃ e, (request (.launch r.launch)).run w none s = (.done (.error e), t) ∧
      report = reported r w s [] (some (.launch e)) t) ∨
    ∃ u results error v reply, Launched r w s u ∧
      inside r w cases u = (.done (results, error), v) ∧
      (request .close).run w none v = (.done reply, t) ∧
      report = reported r w s results error t := by
  rw [execute_eq] at h
  obtain ⟨launch, u, hlaunch, h⟩ := Ended.andThen_eq_done h
  rcases launch with e | value
  · cases h
    exact .inl ⟨e, hlaunch, rfl⟩
  · obtain ⟨⟨results, error⟩, v, hinside, h⟩ := Ended.andThen_eq_done h
    obtain ⟨reply, x, hclose, h⟩ := Ended.andThen_eq_done h
    cases h
    exact .inr ⟨u, results, error, v, reply, ⟨value, hlaunch⟩, hinside, hclose, rfl⟩

theorem Launched.unique {u : Session σ} (h : Launched r w s t) (h' : Launched r w s u) : t = u := by
  obtain ⟨v, h⟩ := h
  obtain ⟨v', h'⟩ := h'
  cases h.symm.trans h'
  rfl

theorem Ready.unique {u : Session σ} (h : Ready r w s t) (h' : Ready r w s u) : t = u := by
  cases (setUp_ok_iff.mpr h).symm.trans (setUp_ok_iff.mpr h')
  rfl

theorem events_of_request {c : Call} {reply : Except BrowserError Value}
    (h : (request c).run w none s = (.done reply, t)) : t.events = s.events ++ [.call s.now c] := by
  rw [run_request] at h
  split at h
  · cases h
  · obtain ⟨-, rfl⟩ := Prod.mk.inj h
    rfl

/-! ## How closing ends -/

theorem answer_closing_of_ne (w : World σ) (o : Outcome) {c : Call} (h : c ≠ .close) (page : σ)
    (time : Nat) : (w.closing o).answer page time c = w.answer page time c :=
  if_neg h

theorem ne_close_of_inside {c : Call} (h : c.Inside) : c ≠ .close := by
  rintro rfl
  exact h

theorem inside_closing (r : Run) (w : World σ) (o : Outcome) (cases : List TestCase)
    (s : Session σ) : inside r (w.closing o) cases s = inside r w cases s := by
  have hw : ∀ page time c, c.Inside → (w.closing o).answer page time c = w.answer page time c :=
    fun page time c hc => answer_closing_of_ne w o (ne_close_of_inside hc) page time
  have hcases : ∀ (x : CaseRunner) (s : Session σ),
      runCases x (w.closing o) cases s = runCases x w cases s := by
    intro x
    induction cases with
    | nil => exact fun s => rfl
    | cons c cs ih =>
      intro s
      have hrun : CaseRun.run x (w.closing o) c s = CaseRun.run x w c s :=
        CaseRun.run_answering hw x c s
      simp only [runCases_cons, hrun, ih]
  have hsetUp : r.setUp.run (w.closing o) none s = r.setUp.run w none s :=
    Routine.run_answering hw r.asks_setUp none s
  simp only [inside, hsetUp, hcases]

theorem close_closing {o : Outcome} (ho : ∀ b, o ≠ .breakdown b)
    {reply : Except BrowserError Value} (h : (request .close).run w none s = (.done reply, t)) :
    ∃ reply', (request .close).run (w.closing o) none s = (.done reply', t) := by
  rw [run_request] at h ⊢
  have hanswer : (w.closing o).answer s.page s.now .close =
      { w.answer s.page s.now .close with outcome := o } := by simp [World.closing]
  rcases hdelay : (w.answer s.page s.now .close).delay with _ | ms
  · rw [hdelay] at h
    cases h
  · simp only [hdelay, Prod.mk.injEq] at h
    simp only [hanswer, hdelay]
    obtain ⟨-, rfl⟩ := h
    have hsession : s.awaited (w.closing o) .close (s.now + ms) =
        s.awaited w .close (s.now + ms) := by
      simp only [Session.awaited, Session.made, hanswer]
      rfl
    rw [hsession]
    cases o with
    | ok v => exact ⟨.ok v, rfl⟩
    | failed e => exact ⟨.error e, rfl⟩
    | breakdown b => exact absurd rfl (ho b)

theorem execute_closing {o : Outcome} (ho : ∀ b, o ≠ .breakdown b) {report : RunReport}
    (h : execute r w cases s = (.done report, t)) :
    execute r (w.closing o) cases s = (.done report, t) := by
  have hlaunch : (request (.launch r.launch)).run (w.closing o) none s =
      (request (.launch r.launch)).run w none s :=
    Routine.run_answering (P := (· ≠ .close))
      (fun page time c hc => answer_closing_of_ne w o hc page time) (asks_request (by simp)) none s
  rcases execute_done h with ⟨e, hfailed, rfl⟩ | ⟨u, results, error, v, reply, hstart, hinside,
    hclose, rfl⟩
  · rw [execute_eq, hlaunch, hfailed]
    rfl
  · obtain ⟨value, hstart⟩ := hstart
    obtain ⟨reply', hclose⟩ := close_closing ho hclose
    rw [execute_eq, hlaunch, hstart]
    simp only [Ended.andThen_done, launched, inside_closing, hinside, hclose]
    rfl

/-! ## Runs without a report -/

theorem request_halted {c : Call} {h : Halt} (e : (request c).run w none s = (.halted h, t)) :
    h = .stuck ∨ ∃ b, h = .breakdown b ∧ (w.answer s.page s.now c).outcome = .breakdown b := by
  rw [run_request] at e
  split at e
  · cases e
    exact .inl rfl
  · obtain ⟨hresult, -⟩ := Prod.mk.inj e
    rcases houtcome : (w.answer s.page s.now c).outcome with v | e | b
    · rw [houtcome] at hresult
      cases hresult
    · rw [houtcome] at hresult
      cases hresult
    · rw [houtcome] at hresult
      cases hresult
      exact .inr ⟨b, rfl, rfl⟩

theorem inside_halted {h : Halt} (e : inside r w cases s = (.halted h, t)) : h = .stuck := by
  unfold inside at e
  split at e
  · cases e
  · rename_i h' u hne hsetUp
    cases e
    have hexplained := Routine.run_halted r.asks_setUp s.inTime_none hsetUp
    cases h with
    | deadline => exact absurd rfl hexplained
    | breakdown b => exact absurd rfl (hne b)
    | stuck => rfl
  · cases e
  · simp only at e
    split at e
    · cases e
    · rename_i h' u hne hcases
      cases e
      obtain ⟨finished, c, rest, v, -, -, hrun⟩ := runCases_broken hcases
      obtain ⟨b, rfl⟩ := CaseRun.run_halted hrun
      exact absurd rfl (hne b)
    · cases e

/-- A run without a report waits for a request forever, or breaks down in launching or closing the
browser. -/
theorem execute_halted {h : Halt} (e : execute r w cases s = (.halted h, t)) :
    h = .stuck ∨ ∃ b page time c, h = .breakdown b ∧ (c = .launch r.launch ∨ c = .close) ∧
      (w.answer page time c).outcome = .breakdown b := by
  rw [execute_eq] at e
  rcases Ended.andThen_eq_halted e with e | ⟨launch, u, -, e⟩
  · rcases request_halted e with rfl | ⟨b, rfl, hb⟩
    · exact .inl rfl
    · exact .inr ⟨b, _, _, _, rfl, .inl rfl, hb⟩
  · rcases launch with e' | value
    · cases e
    · rcases Ended.andThen_eq_halted e with e | ⟨p, v, -, e⟩
      · exact .inl (inside_halted e)
      · rcases Ended.andThen_eq_halted e with e | ⟨reply, x, -, e⟩
        · rcases request_halted e with rfl | ⟨b, rfl, hb⟩
          · exact .inl rfl
          · exact .inr ⟨b, _, _, _, rfl, .inr rfl, hb⟩
        · cases e

/-! ## The course of a run -/

/-- A run that ends with a report goes like this. -/
theorem execute_course {report : RunReport} (h : execute r w cases s = (.done report, t)) :
    Course r w cases s report t := by
  have hignored := fun (o : Outcome) (ho : ∀ b, o ≠ .breakdown b) => execute_closing ho h
  rcases execute_done h with ⟨e, hfailed, rfl⟩ | ⟨u, results, error, v, reply, hlaunched, hinside,
    hclose, rfl⟩
  · -- no browser
    have hno : ∀ u, ¬Launched r w s u := by
      rintro u ⟨value, hlaunch⟩
      cases hfailed.symm.trans hlaunch
    have hevents := events_of_request hfailed
    exact
      { launch_first := ⟨[], hevents, by simp⟩
        close_last := fun u hu => absurd hu (hno u)
        unlaunched := fun _ => ⟨hevents, rfl, e, rfl⟩
        unready := fun u hu => absurd hu (hno u)
        ready := fun u _ hu => absurd hu (hno u)
        ids := List.nil_prefix
        all := fun herror => by cases herror
        close_ignored := hignored }
  · -- launched and closed
    obtain ⟨value, hlaunch⟩ := hlaunched
    have hstart := events_of_request hlaunch
    obtain ⟨between, hbetween, hall⟩ := hinside ▸ inside_inside r w cases u
    have hend := events_of_request hclose
    have hrest : t.events = u.events ++ between ++ [.call v.now .close] := by rw [hend, hbetween]
    have hunique : ∀ {u'}, Launched r w s u' → u' = u := fun h' => h'.unique ⟨value, hlaunch⟩
    refine
      { launch_first := ⟨between ++ [.call v.now .close], ?_, ?_⟩
        close_last := ?_
        unlaunched := fun hno => absurd ⟨value, hlaunch⟩ (hno u)
        unready := ?_
        ready := ?_
        ids := ?_
        all := ?_
        close_ignored := hignored }
    · rw [hrest, hstart]
      simp
    · intro e he
      rcases List.mem_append.mp he with he | he
      · exact (hall e he).not_launches
      · rw [List.mem_singleton] at he
        subst he
        rintro ⟨time, options, h'⟩
        cases h'
    · intro u' hu'
      obtain rfl := hunique hu'
      exact ⟨between, v.now, hrest, fun e he => (hall e he).not_closes⟩
    · intro u' hu' hnot
      obtain rfl := hunique hu'
      rcases inside_cases hinside with ⟨rfl, e, rfl, he⟩ | ⟨x, hready, -⟩
      · exact ⟨rfl, e, v, he, rfl, hend⟩
      · exact absurd hready (hnot x)
    · intro u' x hu' hx
      obtain rfl := hunique hu'
      rcases inside_cases hinside with ⟨-, e, -, he⟩ | ⟨y, hready, hwent⟩
      · exact absurd hx (he.not_ready x)
      · obtain rfl := hready.unique hx
        exact ⟨error, v, hwent, rfl, hend⟩
    · rcases inside_cases hinside with ⟨rfl, -⟩ | ⟨y, -, hwent⟩
      · exact List.nil_prefix
      · exact hwent.ids
    · intro herror
      obtain rfl : error = none := Option.map_eq_none_iff.mp herror
      rcases inside_cases hinside with ⟨-, e, he, -⟩ | ⟨y, -, hwent⟩
      · cases he
      · exact hwent.ids_of_none

end phases

/-- A browser on which the program breaks down when it waits for an element. -/
def brittle : Browser.Script where
  rules := [⟨"wait_for", "*", none, 0, .breakDown (.message "gone")⟩]
  texts := []
  echoes := []
  screenshot := []

/-- A run of three cases of which the second breaks down. -/
theorem execute_course_brittle :
    let r : Run :=
      { runId := "run", settings := { evidence := { captureScreenshots := false } },
        targetUrl := "https://x.test/",
        launch := ⟨.chromium, true, {}⟩, resolve := StopWords.usual.resolver }
    let w := brittle.world false ⟨0, 0⟩
    let cases : List TestCase :=
      [{ id := "a", steps := ["Click \"Buy\""] }, { id := "b", steps := ["Verify \"Sum\""] },
        { id := "c", steps := ["Click \"Pay\""] }]
    let s : Session (List Nat) := { page := [] }
    ∃ report t, execute r w cases s = (.done report, t) ∧ report.cases.length = 1 ∧
      Course r w cases s report t := by
  intro r w cases s
  have hlength : (match (execute r w cases s).1 with
      | .done report => report.cases.length
      | .halted _ => 0) = 1 := by decide +kernel
  rcases h : execute r w cases s with ⟨report | halt, t⟩
  · rw [h] at hlength
    exact ⟨report, t, rfl, hlength, execute_course h⟩
  · rw [h] at hlength
    cases hlength

end Run

end PlainSteps
