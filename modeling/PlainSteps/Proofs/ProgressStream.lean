import Mathlib.Data.List.Forall2
import PlainSteps.Proofs.RunPhases

/-!
# What is published of a run

`Run.progress_streamed`: of each recorded step a case publishes that it begins and then its result, and
of a step that the deadline cuts only that it begins; a run publishes what its cases do, one after the
other; and whoever watches, all else is the same.

Results are published at two places, around the action of a step, and between them a case only carries
out routines, which publish nothing (`Routine.run_emits`). So a step can be cut only after it is
announced and before it is reported (`CaseRun.oneStep_emits`, `CaseRun.oneStep_cut_emits`), and no step
is recorded without being reported. Each part of a run is given with all that it publishes (`Emits`), and
the parts are put together like the run itself.
-/

namespace PlainSteps

variable {σ α β : Type}

/-! ## Watchers -/

namespace Session

/-- The same session with another watcher, who has seen results already, or with none. -/
def watched (s : Session σ) (seen : Option (List Progress)) : Session σ :=
  { s with progress := seen }

@[simp] theorem watched_now (s : Session σ) (seen : Option (List Progress)) :
    (s.watched seen).now = s.now := rfl

@[simp] theorem watched_page (s : Session σ) (seen : Option (List Progress)) :
    (s.watched seen).page = s.page := rfl

@[simp] theorem watched_moment (w : World σ) (s : Session σ) (seen : Option (List Progress)) :
    (s.watched seen).moment w = s.moment w := rfl

theorem made_watched (w : World σ) (c : Call) (s : Session σ) (seen : Option (List Progress)) :
    (s.watched seen).made w c = (s.made w c).watched seen := rfl

theorem awaited_watched (w : World σ) (c : Call) (time : Nat) (s : Session σ)
    (seen : Option (List Progress)) :
    (s.watched seen).awaited w c time = (s.awaited w c time).watched seen := rfl

theorem elapse_watched (w : World σ) (d : Option Nat) (ms : Nat) (s : Session σ)
    (seen : Option (List Progress)) :
    (s.watched seen).elapse w d ms = ((s.elapse w d ms).1, (s.elapse w d ms).2.watched seen) := by
  have h : (s.watched seen).elapse w d ms =
      if reaches w d s.now (s.now + ms) then (true, { s with now := s.now + ms }.watched seen)
      else (false, { s with now := d.getD s.now }.watched seen) := rfl
  rw [h, elapse]
  split <;> rfl

theorem drain_watched (s : Session σ) (seen : Option (List Progress)) :
    (s.watched seen).drain = (s.drain.1, s.drain.2.watched seen) := by
  have hnetwork : (s.watched seen).network = s.network := rfl
  unfold drain
  rw [hnetwork]
  cases s.network <;> rfl

end Session

/-- What is done in a session publishes these results, and is otherwise the same whoever watches. -/
def Emits (f : Session σ → α × Session σ) (s : Session σ) (ps : List Progress) : Prop :=
  ∀ seen, f (s.watched seen) = ((f s).1, (f s).2.watched (seen.map (· ++ ps)))

theorem emits_nil {f : Session σ → α × Session σ} {s : Session σ}
    (h : ∀ seen, f (s.watched seen) = ((f s).1, (f s).2.watched seen)) : Emits f s [] := by
  intro seen
  rw [h]
  simp

namespace Emits

variable {f : Session σ → Ended α × Session σ} {g : α → Session σ → Ended β × Session σ}
  {s t : Session σ} {ps qs : List Progress}

theorem andThen {a : α} (hf : Emits f s ps) (h : f s = (.done a, t)) (hg : Emits (g a) t qs) :
    Emits (fun u => Ended.andThen (f u) g) s (ps ++ qs) := by
  intro seen
  simp only [hf seen, h, Ended.andThen_done, hg (seen.map (· ++ ps)), Option.map_map,
    Function.comp_def, List.append_assoc]

theorem andThen_halted {halt : Halt} (hf : Emits f s ps) (h : f s = (.halted halt, t)) :
    Emits (fun u => Ended.andThen (f u) g) s ps := by
  intro seen
  simp only [hf seen, h, Ended.andThen_halted]

theorem andThen_nil (hf : Emits f s []) (hg : ∀ a t, Emits (g a) t []) :
    Emits (fun u => Ended.andThen (f u) g) s [] := by
  rcases h : f s with ⟨a | halt, t⟩
  · exact hf.andThen h (hg a t)
  · exact hf.andThen_halted h

end Emits

/-! ## Routines -/

theorem Session.ask_emits (w : World σ) (d : Option Nat) (c : Call) (limit : Option Nat)
    (s : Session σ) : Emits (fun u => u.ask w d c limit) s [] := by
  refine emits_nil fun seen => ?_
  simp only [ask, made_watched, awaited_watched]
  rw [watched_now, watched_page]
  rcases waitFor limit (w.answer s.page s.now c).delay with _ | ⟨ms, ended⟩
  · cases d <;> rfl
  · simp only
    split <;> rfl

theorem Routine.run_emits (w : World σ) (d : Option Nat) (r : Routine α) (s : Session σ) :
    Emits (r.run w d) s [] := by
  induction r generalizing s with
  | done a => exact emits_nil fun seen => rfl
  | call c limit next ih =>
    exact (s.ask_emits w d c limit).andThen_nil fun reply t => ih reply t
  | pause ms next ih =>
    intro seen
    simp only [run, Session.elapse_watched]
    rcases s.elapse w d (min Session.longest ms) with ⟨⟨⟩ | ⟨⟩, t⟩
    · simp
    · exact ih t seen
  | save path bytes next ih =>
    intro seen
    have h : (save path bytes next).run w d (s.watched seen) =
        if w.stores s.page s.now path then (next true).run w d ((s.write path bytes).watched seen)
        else (next false).run w d (s.watched seen) := rfl
    rw [h]
    simp only [run]
    split
    · exact ih true (s.write path bytes) seen
    · exact ih false s seen

/-! ## Steps -/

theorem StepResult.description_judged (x : StepResult) (v : Verdict) (now : Timestamp)
    (elapsed : Nat) : (x.judged v now elapsed).description = x.description := by
  cases v <;> rfl

namespace CaseRun

variable {r : CaseRunner} {w : World σ} {d : Option Nat} {caseId raw : String} {index : Nat}
  {vars vars' : Variables} {s t : Session σ} {result : StepResult} {halt : Halt}

/-- That a step begins. -/
def announcement (r : CaseRunner) (w : World σ) (caseId raw : String) (index : Nat)
    (vars : Variables) (s : Session σ) : Progress :=
  ⟨r.runId, caseId, .begun index (Sentence.normalize (vars.substitute raw)) (s.moment w)⟩

theorem runStep_emits (x : Step.Context) (w : World σ) (d : Option Nat) (index : Nat)
    (description : String) (action : Action) (vars : Variables) (s : Session σ) :
    Emits (runStep x w d index description action vars) s [] := by
  intro seen
  simp only [runStep_eq, Session.watched_moment, Session.watched_now]
  refine (Routine.run_emits w d (Step.perform x action vars) s).andThen_nil (fun p t seen => ?_) seen
  refine (Routine.run_emits w d (Step.close x index) t).andThen_nil (fun screenshot u => ?_) seen
  exact emits_nil fun seen => rfl

theorem oneStep_watched (seen : Option (List Progress)) :
    oneStep r w d caseId raw index vars (s.watched seen) =
      Ended.andThen (runStep (r.context caseId) w d index (Sentence.normalize (vars.substitute raw))
        (Sentence.classify r.rules (vars.substitute raw)) vars
        ((beginStep r w caseId index (Sentence.normalize (vars.substitute raw)) s).watched
          (seen.map (· ++ [announcement r w caseId raw index vars s])))) (endStep r caseId) := rfl

theorem endStep_emits (r : CaseRunner) (caseId : String) (p : StepResult × Variables) (s : Session σ) :
    Emits (endStep r caseId p) s [⟨r.runId, caseId, { p.1 with network := s.drain.1 }⟩] := by
  intro seen
  simp only [endStep, Session.drain_watched]
  rfl

theorem oneStep_emits (h : oneStep r w d caseId raw index vars s = (.done (result, vars'), t)) :
    Emits (oneStep r w d caseId raw index vars) s
      [announcement r w caseId raw index vars s, ⟨r.runId, caseId, result⟩] := by
  intro seen
  obtain ⟨p, u, hstep, hend⟩ := Ended.andThen_eq_done h
  obtain rfl : { p.1 with network := u.drain.1 } = result := by
    cases hend
    rfl
  have hemits := (runStep_emits _ w d _ _ _ _ _).andThen hstep
    (endStep_emits r caseId p u)
  rw [oneStep_watched]
  refine (hemits _).trans ?_
  simp only [Option.map_map, Function.comp_def, List.append_assoc, List.nil_append,
    List.cons_append]
  rfl

theorem oneStep_cut_emits (h : oneStep r w d caseId raw index vars s = (.halted halt, t)) :
    Emits (oneStep r w d caseId raw index vars) s [announcement r w caseId raw index vars s] := by
  intro seen
  have hstep : runStep (r.context caseId) w d index (Sentence.normalize (vars.substitute raw))
      (Sentence.classify r.rules (vars.substitute raw)) vars
      (beginStep r w caseId index (Sentence.normalize (vars.substitute raw)) s) = (.halted halt, t) := by
    rcases Ended.andThen_eq_halted h with hstep | ⟨p, u, -, hend⟩
    · exact hstep
    · cases hend
  have hemits := (runStep_emits _ w d _ _ _ _ _).andThen_halted (g := endStep r caseId) hstep
  rw [oneStep_watched]
  refine (hemits _).trans ?_
  simp only [List.append_nil, Option.map_map, Function.comp_def]
  rfl

theorem announcement_of_oneStep
    (h : oneStep r w d caseId raw index vars s = (.done (result, vars'), t)) :
    result.index = index ∧ announcement r w caseId raw index vars s =
      ⟨r.runId, caseId, .begun index result.description (s.moment w)⟩ := by
  obtain ⟨verdict, t₁, screenshot, t₂, -, -, rfl, -⟩ := oneStep_eq_done h
  simp only [StepResult.index_judged, StepResult.description_judged, StepResult.begun, announcement,
    and_self]

/-! ## Cases -/

/-- What a case publishes from one of its steps on, by the results recorded and how the case ended:
each recorded step is announced and reported, and a step that the deadline cut is announced. -/
inductive Streamed (runId caseId : String) :
    Nat → List StepResult → Termination → List Progress → Prop
  | over {index : Nat} {e : Termination} (h : e ≠ .timedOut) : Streamed runId caseId index [] e []
  | cut {index : Nat} (description : String) (moment : Timestamp) :
    Streamed runId caseId index [] .timedOut [⟨runId, caseId, .begun index description moment⟩]
  | step {index : Nat} {x : StepResult} {xs : List StepResult} {e : Termination}
      {ps : List Progress} (moment : Timestamp) (hindex : x.index = index)
      (h : Streamed runId caseId (index + 1) xs e ps) :
    Streamed runId caseId index (x :: xs) e
      (⟨runId, caseId, .begun index x.description moment⟩ :: ⟨runId, caseId, x⟩ :: ps)

end CaseRun

/-- What a case publishes, by its result. -/
def CaseResult.Streamed (runId : String) (x : CaseResult) (ps : List Progress) : Prop :=
  CaseRun.Streamed runId x.caseId 0 x.steps x.termination ps

/-- How a case ends whose steps end so, on a calm browser. -/
def Ended.termination : Ended Termination → Termination
  | done e => e
  | halted _ => .timedOut

/-- The same steps with another watcher. -/
def StepsRun.watched (x : StepsRun σ) (seen : Option (List Progress)) : StepsRun σ :=
  { x with session := x.session.watched seen }

namespace CaseRun

variable {r : CaseRunner} {w : World σ}

theorem runSteps_streamed (r : CaseRunner) (w : World σ) (d : Option Nat) (caseId : String)
    (raws : List String) (index : Nat) (vars : Variables) (s : Session σ) :
    ∃ ps, Streamed r.runId caseId index (runSteps r w d caseId raws index vars s).steps
        (runSteps r w d caseId raws index vars s).ending.termination ps ∧
      ∀ seen, runSteps r w d caseId raws index vars (s.watched seen) =
        (runSteps r w d caseId raws index vars s).watched (seen.map (· ++ ps)) := by
  induction raws generalizing index vars s with
  | nil =>
    simp only [runSteps_nil]
    exact ⟨[], .over (by simp [Ended.termination]), by simp [StepsRun.watched]⟩
  | cons raw rest ih =>
    simp only [runSteps_cons]
    rcases hstep : oneStep r w d caseId raw index vars s with ⟨⟨result, vars'⟩ | halt, t⟩
    · have hemits := oneStep_emits hstep
      obtain ⟨hindex, hannounced⟩ := announcement_of_oneStep hstep
      rw [hannounced] at hemits
      by_cases hfail : result.isFail = true
      · simp only [if_pos hfail]
        refine ⟨_, .step (s.moment w) hindex (.over (by simp [Ended.termination])), fun seen => ?_⟩
        rw [hemits seen, hstep]
        simp only [if_pos hfail]
        rfl
      · simp only [if_neg hfail]
        obtain ⟨ps, hstreamed, hrest⟩ := ih (index + 1) vars' t
        refine ⟨_, .step (s.moment w) hindex hstreamed, fun seen => ?_⟩
        rw [hemits seen, hstep]
        simp only [if_neg hfail, hrest, Option.map_map, Function.comp_def, List.append_assoc]
        rfl
    · refine ⟨_, .cut (Sentence.normalize (vars.substitute raw)) (s.moment w), fun seen => ?_⟩
      rw [oneStep_cut_emits hstep seen, hstep]
      rfl

/-- A case that has any time at all, on a calm browser, publishes what its result says. -/
theorem run_streamed (hw : w.Calm) (htime : 0 < r.execution.caseTimeoutSecs) (c : TestCase)
    (s : Session σ) : ∃ x t ps, run r w c s = (.done x, t) ∧ x.caseId = c.id ∧
      x.Streamed r.runId ps ∧ Emits (run r w c) s ps := by
  obtain ⟨ps, hstreamed, hseen⟩ := runSteps_streamed r w (some (deadline r s)) c.id c.steps 0 .empty
    (s.capture r.evidence.captureNetwork)
  rw [← carried_of_pos htime w c s] at hstreamed hseen
  have hcarried : ∀ seen, carried r w c (s.watched seen) =
      (carried r w c s).watched (seen.map (· ++ ps)) := by
    intro seen
    rw [carried_of_pos htime w c (s.watched seen)]
    exact hseen seen
  rcases carried_ending r hw c s with he | ⟨termination, he⟩
  · have hrun : run r w c s = concluded w c s (carried r w c s) .timedOut
        (some (deadlineMessage r.execution.caseTimeoutSecs.toNat)) := by rw [run_eq, he]
    rw [he] at hstreamed
    refine ⟨_, _, ps, hrun, rfl, hstreamed, fun seen => ?_⟩
    rw [hrun, run_eq, hcarried seen, StepsRun.watched, he]
    rfl
  · have hrun : run r w c s = concluded w c s (carried r w c s) termination none := by
      rw [run_eq, he]
    rw [he] at hstreamed
    refine ⟨_, _, ps, hrun, rfl, hstreamed, fun seen => ?_⟩
    rw [hrun, run_eq, hcarried seen, StepsRun.watched, he]
    rfl

end CaseRun

/-! ## Runs -/

namespace Run

open Routine

variable {r : Run} {w : World σ}

/-- A list of cases publishes what its cases do, one after the other. -/
theorem runCases_streamed {x : CaseRunner} (hw : w.Calm) (htime : 0 < x.execution.caseTimeoutSecs)
    (cases : List TestCase) (s : Session σ) :
    ∃ (results : List CaseResult) (streams : List (List Progress)) (t : Session σ),
      List.Forall₂ (CaseResult.Streamed x.runId) results streams ∧
      ∀ seen, runCases x w cases (s.watched seen) =
        (results, none, t.watched (seen.map (· ++ streams.flatten))) := by
  induction cases generalizing s with
  | nil => exact ⟨[], [], s, .nil, fun seen => by simp [runCases]⟩
  | cons c cs ih =>
    obtain ⟨result, t, ps, hrun, -, hstreamed, hemits⟩ := CaseRun.run_streamed hw htime c s
    obtain ⟨results, streams, u, hall, hrest⟩ := ih t
    refine ⟨result :: results, ps :: streams, u, .cons hstreamed hall, fun seen => ?_⟩
    rw [runCases_cons, hemits seen, hrun]
    simp only [hrest, Option.map_map, Function.comp_def, List.append_assoc, List.flatten_cons]

/-- A part of a run publishes what the cases publish whose results it ends with, one after the other. -/
def Streams (r : Run) (f : Session σ → Ended α × Session σ) (s : Session σ)
    (cases : α → List CaseResult) : Prop :=
  ∃ (results : List CaseResult) (streams : List (List Progress)),
    List.Forall₂ (CaseResult.Streamed r.runId) results streams ∧ Emits f s streams.flatten ∧
    ∀ a t, f s = (.done a, t) → cases a = results

theorem streams_nil {f : Session σ → Ended α × Session σ} {s : Session σ}
    {cases : α → List CaseResult} (hf : Emits f s [])
    (h : ∀ a t, f s = (.done a, t) → cases a = []) : r.Streams f s cases :=
  ⟨[], [], .nil, hf, h⟩

theorem inside_streamed (hw : w.Calm) (htime : 0 < r.settings.execution.caseTimeoutSecs)
    (cases : List TestCase) (s : Session σ) : r.Streams (inside r w cases) s (·.1) := by
  have hsetUp := Routine.run_emits w none r.setUp s
  rcases h : r.setUp.run w none s with ⟨(e | ⟨⟩) | halt, t⟩
  · refine streams_nil (fun seen => ?_) fun p t hinside => ?_
    · simp only [inside, hsetUp seen, h]
    · simp only [inside, h] at hinside
      cases hinside
      rfl
  · obtain ⟨results, streams, u, hall, hcases⟩ := runCases_streamed (x := r.runner) hw htime cases t
    have hself : runCases r.runner w cases t = (results, none, u.watched _) := hcases t.progress
    rw [runner] at hcases hself
    refine ⟨results, streams, hall, fun seen => ?_, fun p v hinside => ?_⟩
    · simp only [inside, hsetUp seen, h, hcases, hself, List.append_nil, Option.map_id']
      rfl
    · simp only [inside, h, hself] at hinside
      cases hinside
      rfl
  · cases halt with
    | breakdown b =>
      refine streams_nil (fun seen => ?_) fun p t hinside => ?_
      · simp only [inside, hsetUp seen, h]
      · simp only [inside, h] at hinside
        cases hinside
        rfl
    | _ =>
      refine streams_nil (fun seen => ?_) fun p t hinside => ?_
      · simp only [inside, hsetUp seen, h]
      · simp only [inside, h] at hinside
        cases hinside

theorem launched_streamed (hw : w.Calm) (htime : 0 < r.settings.execution.caseTimeoutSecs)
    (cases : List TestCase) (s t : Session σ) : r.Streams (launched r w cases s) t (·.cases) := by
  obtain ⟨results, streams, hall, hemits, hresults⟩ := inside_streamed hw htime cases t
  refine ⟨results, streams, hall, ?_, fun report u h => ?_⟩
  · rcases hinside : inside r w cases t with ⟨p | halt, u⟩
    · have hclose : Emits (fun v => Ended.andThen ((request .close).run w none v) fun _ x =>
          (.done (reported r w s p.1 p.2 x), x)) u [] :=
        (Routine.run_emits w none _ u).andThen_nil fun _ _ => emits_nil fun _ => rfl
      have hboth := hemits.andThen (g := fun p v => Ended.andThen ((request .close).run w none v)
        fun _ x => (.done (reported r w s p.1 p.2 x), x)) hinside hclose
      rwa [List.append_nil] at hboth
    · exact hemits.andThen_halted hinside
  · obtain ⟨p, v, hinside, hclose⟩ := Ended.andThen_eq_done h
    obtain ⟨reply, x, -, hreport⟩ := Ended.andThen_eq_done hclose
    cases hreport
    exact hresults p v hinside

theorem execute_streamed (hw : w.Calm) (htime : 0 < r.settings.execution.caseTimeoutSecs)
    (cases : List TestCase) (s : Session σ) : r.Streams (execute r w cases) s (·.cases) := by
  have hlaunch := Routine.run_emits w none (request (.launch r.launch)) s
  rcases h : (request (.launch r.launch)).run w none s with ⟨(e | v) | halt, t⟩
  · refine streams_nil (fun seen => ?_) fun report u hreport => ?_
    · simp only [execute_eq, hlaunch seen, h]
      rfl
    · rw [execute_eq, h] at hreport
      cases hreport
      rfl
  · obtain ⟨results, streams, hall, hemits, hresults⟩ := launched_streamed hw htime cases s t
    refine ⟨results, streams, hall, fun seen => ?_, fun report u hreport => ?_⟩
    · have hstart : launched r w cases (s.watched seen) = launched r w cases s := rfl
      simp only [execute_eq, hlaunch seen, h, Ended.andThen_done, hstart, List.append_nil,
        Option.map_id']
      exact hemits seen
    · rw [execute_eq, h] at hreport
      exact hresults report u hreport
  · refine streams_nil (fun seen => ?_) fun report u hreport => ?_
    · simp only [execute_eq, hlaunch seen, h]
      rfl
    · rw [execute_eq, h] at hreport
      cases hreport

/-- On a calm browser, with some time for each case: a case publishes its steps as its result says, each
with its identifier; a run publishes what its cases do, one after the other; and whoever watches, and
whether anyone does, results and requests are the same. -/
theorem progress_streamed (r : Run) {w : World σ} (hw : w.Calm)
    (htime : 0 < r.settings.execution.caseTimeoutSecs) :
    (∀ (c : TestCase) (s : Session σ), ∃ x t ps, CaseRun.run r.runner w c s = (.done x, t) ∧
      x.caseId = c.id ∧ x.Streamed r.runId ps ∧ Emits (CaseRun.run r.runner w c) s ps) ∧
    ∀ (cases : List TestCase) (s : Session σ),
      ∃ (results : List CaseResult) (streams : List (List Progress)),
        List.Forall₂ (CaseResult.Streamed r.runId) results streams ∧
        Emits (execute r w cases) s streams.flatten ∧
        ∀ report t, execute r w cases s = (.done report, t) → report.cases = results :=
  ⟨CaseRun.run_streamed (r := r.runner) hw htime, execute_streamed hw htime⟩

/-- A browser on which no waiting for an element ever ends, no field can be filled, and all else takes a
while. -/
def sluggish : Browser.Script where
  rules := [⟨"wait_for", "*", none, 0, .hang⟩, ⟨"fill", "*", none, 0, .fail .disconnected⟩,
    ⟨"*", "*", none, 700, .succeed⟩]
  texts := []
  echoes := []
  screenshot := []

/-- A run with a case that is cut in its second step, one that fails and one that completes. -/
theorem progress_streamed_sluggish :
    let r : Run :=
      { runId := "run"
        settings :=
          { evidence := { captureScreenshots := false }, execution := { caseTimeoutSecs := 5 } }
        targetUrl := "https://x.test/"
        launch := ⟨.chromium, true, {}⟩, resolve := StopWords.usual.resolver }
    let w := sluggish.world false ⟨0, 0⟩
    let cases : List TestCase :=
      [{ id := "cut", steps := ["Click \"Buy\"", "Verify \"Sum\"", "Click \"Pay\""] },
        { id := "failed", steps := ["Fill \"name\" with \"x\"", "Click \"Buy\""] },
        { id := "completed", steps := ["Click \"Buy\""] }]
    let s : Session (List Nat) := { page := [], progress := some [] }
    (execute r w cases s).2.progress.map
        (·.map fun p => (p.caseId, p.result.index, p.result.status)) =
      some [("cut", 0, .pending), ("cut", 0, .pass), ("cut", 1, .pending),
        ("failed", 0, .pending), ("failed", 0, .fail),
        ("completed", 0, .pending), ("completed", 0, .pass)] ∧
      w.Calm ∧ 0 < r.settings.execution.caseTimeoutSecs ∧
      ∃ (results : List CaseResult) (streams : List (List Progress)),
        List.Forall₂ (CaseResult.Streamed r.runId) results streams ∧
        Emits (execute r w cases) s streams.flatten ∧
        ∀ report t, execute r w cases s = (.done report, t) → report.cases = results := by
  intro r w cases s
  have hw : w.Calm := Browser.Script.calm_world (by simp [sluggish]) _ _
  have htime : 0 < r.settings.execution.caseTimeoutSecs := by decide
  exact ⟨by decide +kernel, hw, htime, (progress_streamed r hw htime).2 cases s⟩

end Run

end PlainSteps
