import Mathlib.Data.List.Forall2
import PlainSteps.Proofs.RequestTrace
import PlainSteps.Proofs.RunPhases

/-!
# Which step a response is noted with

`Run.responses_attributed`: over a list of cases each recorded step has the responses received during
its own requests, in order, and no others; what is noted with no step are the responses of the one step
of a case that the deadline cut.

A step begins on an empty log (`Session.Fresh`), its requests fill it (`CaseRun.routine_traced`), and it
is emptied into the result (`Traced.drain`). So over the steps of a case what is noted is divided as the
requests are (`CaseRun.runSteps_divided`), and nothing is carried over into the next case.
-/

namespace PlainSteps

variable {σ : Type}

/-! ## Logs -/

namespace Session

/-- Nothing has been noted since the log was last emptied, if one is kept. -/
def Fresh (on : Bool) (s : Session σ) : Prop :=
  s.network = if on then some .empty else none

theorem fresh_capture (on : Bool) (s : Session σ) : (s.capture on).Fresh on := rfl

end Session

/-- The responses to requests, if responses are wanted. -/
def gathered (w : World σ) (on : Bool) (qs : List (Request σ)) : Option (List NetworkEntry) :=
  if on then some (qs.flatMap (·.responses w)) else none

theorem Traced.drain {w : World σ} {on : Bool} {qs : List (Request σ)} {s t : Session σ}
    (h : Traced w qs s t) (hs : s.Fresh on) :
    t.drain.1 = gathered w on qs ∧ t.drain.2.Fresh on := by
  have hnetwork := h.network
  rw [hs] at hnetwork
  cases on with
  | true =>
    simp only [if_true, Option.map_some, NetworkLog.empty, List.nil_append] at hnetwork
    simp only [Session.drain, hnetwork, NetworkLog.drain, gathered, Session.Fresh, if_true, and_self]
  | false =>
    simp only [Bool.false_eq_true, if_false, Option.map_none] at hnetwork
    simp only [Session.drain, hnetwork, gathered, Session.Fresh, Bool.false_eq_true, if_false,
      and_self]

theorem Traced.published (w : World σ) (s : Session σ) (p : Progress) : Traced w [] s (s.publish p) :=
  .nil rfl rfl rfl (Nat.le_refl _)

namespace CaseRun

/-! ## Steps -/

/-- All that a step asks of the browser: its action, and a screenshot once it is judged. -/
def routine (r : CaseRunner) (caseId raw : String) (index : Nat) (vars : Variables) :
    Routine (Option Screenshot) :=
  (Step.perform (r.context caseId) (Sentence.classify r.rules (vars.substitute raw)) vars).bind fun _ =>
    Step.close (r.context caseId) index

/-- The requests of a step, up to its end or to the deadline. -/
def stepRequests (r : CaseRunner) (w : World σ) (d : Nat) (caseId raw : String) (index : Nat)
    (vars : Variables) (s : Session σ) : List (Request σ) :=
  (routine r caseId raw index vars).requests w d
    (beginStep r w caseId index (Sentence.normalize (vars.substitute raw)) s)

/-- The requests of each step of a case that is begun. -/
def requests (r : CaseRunner) (w : World σ) (d : Nat) (caseId : String) :
    List String → Nat → Variables → Session σ → List (List (Request σ))
  | [], _, _, _ => []
  | raw :: rest, index, vars, s =>
    stepRequests r w d caseId raw index vars s ::
      Ended.traceThen (oneStep r w (some d) caseId raw index vars s) fun p t =>
        if p.1.isFail then [] else requests r w d caseId rest (index + 1) p.2 t

variable {r : CaseRunner} {w : World σ} {d : Nat} {caseId raw : String} {index : Nat}
  {vars vars' : Variables} {s t : Session σ} {result : StepResult} {halt : Halt}

theorem routine_traced (r : CaseRunner) (w : World σ) (caseId raw : String) (index : Nat)
    (vars : Variables) (hs : s.now ≤ d) :
    Traced w (stepRequests r w d caseId raw index vars s) s
      ((routine r caseId raw index vars).run w (some d)
        (beginStep r w caseId index (Sentence.normalize (vars.substitute raw)) s)).2 :=
  (Traced.published w s _).append (Routine.run_traced _ hs)

theorem oneStep_traced {on : Bool} (hs : s.now ≤ d) (hfresh : s.Fresh on)
    (e : oneStep r w (some d) caseId raw index vars s = (.done (result, vars'), t)) :
    result.network = gathered w on (stepRequests r w d caseId raw index vars s) ∧ t.Fresh on ∧
      t.events = s.events ++ (stepRequests r w d caseId raw index vars s).map (·.event) ∧
      Request.Leads w (stepRequests r w d caseId raw index vars s) s.page s.now t.page t.now := by
  obtain ⟨verdict, t₁, screenshot, t₂, e₁, e₂, rfl, rfl⟩ := oneStep_eq_done e
  have htraced := routine_traced r w caseId raw index vars hs
  rw [routine, Routine.run_bind, e₁, Ended.andThen_done, e₂] at htraced
  obtain ⟨hnetwork, hempty⟩ := htraced.drain hfresh
  refine ⟨hnetwork, hempty, ?_, ?_⟩
  · simpa [publish] using htraced.events
  · simpa [publish] using htraced.leads

theorem oneStep_cut_traced (hs : s.now ≤ d)
    (e : oneStep r w (some d) caseId raw index vars s = (.halted halt, t)) :
    Traced w (stepRequests r w d caseId raw index vars s) s t := by
  have htraced := routine_traced r w caseId raw index vars hs
  rw [routine, Routine.run_bind] at htraced
  rcases oneStep_eq_halted e with e₁ | ⟨p, t₁, e₁, e₂⟩
  · rw [e₁] at htraced
    exact htraced
  · rw [e₁, Ended.andThen_done, e₂] at htraced
    exact htraced

/-! ## The steps of a case -/

/-- The requests of steps that have been begun account for what the steps have noted: for each recorded
step those of its own, and for a step that was cut those that are left over. -/
structure Divided (w : World σ) (on : Bool) (qs : List (List (Request σ))) (s : Session σ)
    (x : StepsRun σ) : Prop where
  networks : x.steps.map (·.network) = (qs.take x.steps.length).map (gathered w on)
  begun : qs.length = x.steps.length ∨
    qs.length = x.steps.length + 1 ∧ ∃ halt, x.ending = .halted halt
  events : x.session.events = s.events ++ qs.flatten.map (·.event)
  leads : Request.Leads w qs.flatten s.page s.now x.session.page x.session.now

theorem Divided.nil (w : World σ) (on : Bool) (ending : Ended Termination) (s : Session σ) :
    Divided w on [] s ⟨[], ending, s⟩ where
  networks := rfl
  begun := .inl rfl
  events := (List.append_nil _).symm
  leads := .nil (Nat.le_refl _)

theorem Divided.cut {on : Bool} {q : List (Request σ)} (h : Traced w q s t) :
    Divided w on [q] s ⟨[], .halted halt, t⟩ where
  networks := rfl
  begun := .inr ⟨rfl, halt, rfl⟩
  events := by simpa using h.events
  leads := by simpa using h.leads

theorem Divided.cons {on : Bool} {q : List (Request σ)} {qs : List (List (Request σ))}
    {x : StepsRun σ} (hnetwork : result.network = gathered w on q)
    (hevents : t.events = s.events ++ q.map (·.event))
    (hleads : Request.Leads w q s.page s.now t.page t.now) (h : Divided w on qs t x) :
    Divided w on (q :: qs) s { x with steps := result :: x.steps } where
  networks := by
    rw [List.map_cons, hnetwork, h.networks, List.length_cons, List.take_succ_cons, List.map_cons]
  begun := by simpa using h.begun
  events := by
    rw [h.events, hevents, List.flatten_cons, List.map_append, List.append_assoc]
  leads := hleads.append h.leads

/-- The log of the steps of a case is divided as their requests are. -/
theorem runSteps_divided {on : Bool} (raws : List String) (index : Nat) (vars : Variables)
    (hs : s.now ≤ d) (hfresh : s.Fresh on) :
    Divided w on (requests r w d caseId raws index vars s) s
      (runSteps r w (some d) caseId raws index vars s) := by
  induction raws generalizing index vars s with
  | nil => exact .nil w on _ s
  | cons raw rest ih =>
    rw [runSteps_cons, requests]
    rcases hstep : oneStep r w (some d) caseId raw index vars s with ⟨⟨result, vars'⟩ | halt, t⟩
    · obtain ⟨hnetwork, hempty, hevents, hleads⟩ := oneStep_traced hs hfresh hstep
      simp only [Ended.traceThen_done]
      split
      · exact .cons hnetwork hevents hleads (.nil w on _ t)
      · have ht := (oneStep_done (Session.inTime_some.mpr hs) hstep).2.2
        exact .cons hnetwork hevents hleads
          (ih (index + 1) vars' (Session.inTime_some.mp ht) hempty)
    · exact .cut (oneStep_cut_traced hs hstep)

end CaseRun

/-! ## Cases -/

/-- The responses noted with the steps of a case. -/
def CaseResult.noted (x : CaseResult) : List NetworkEntry :=
  x.steps.flatMap fun y => y.network.getD []

/-- The requests of a case. -/
structure CaseTrace (σ : Type) where
  /-- The time at which the case begins. -/
  began : Nat
  /-- The requests of each step that is begun. -/
  steps : List (List (Request σ))
  /-- The time at which the case ends. -/
  ended : Nat

namespace CaseTrace

/-- What a session notes of the case: the browser is told to note responses, if they are wanted, before
the first request, and no longer to after the last. -/
def events (on : Bool) (q : CaseTrace σ) : List Event :=
  .capture q.began on :: q.steps.flatten.map (·.event) ++ [.capture q.ended false]

/-- All responses of the case. -/
def responses (w : World σ) (q : CaseTrace σ) : List NetworkEntry :=
  q.steps.flatten.flatMap (·.responses w)

/-- The responses of the case are noted with the steps whose requests they answer. -/
structure Attributed (w : World σ) (on : Bool) (q : CaseTrace σ) (x : CaseResult) : Prop where
  /-- Each recorded step has the responses to its own requests, in order, if responses are wanted. -/
  networks : x.steps.map (·.network) = (q.steps.take x.steps.length).map (gathered w on)
  /-- Otherwise no step has any. -/
  unwanted : on = false → ∀ y ∈ x.steps, y.network = none
  /-- At most one step is begun and not recorded. -/
  abandoned : q.steps.length ≤ x.steps.length + 1
  /-- Only its responses are missing, and they are the last ones of the case. -/
  missing : on = true →
    x.noted ++ (q.steps.drop x.steps.length).flatten.flatMap (·.responses w) = q.responses w
  /-- Unless the time was over, none is missing. -/
  complete : x.termination ≠ .timedOut →
    q.steps.length = x.steps.length ∧ (on = true → x.noted = q.responses w)

end CaseTrace

namespace CaseRun

variable {r : CaseRunner} {w : World σ} {c : TestCase} {s t : Session σ} {x : CaseResult}

/-- The requests of a case that begins in a session. -/
def trace (r : CaseRunner) (w : World σ) (c : TestCase) (s : Session σ) : CaseTrace σ where
  began := s.now
  steps :=
    if s.now < deadline r s || w.lenient (deadline r s) then
      requests r w (deadline r s) c.id c.steps 0 .empty (s.capture r.evidence.captureNetwork)
    else []
  ended := (carried r w c s).session.now

theorem carried_divided (r : CaseRunner) (w : World σ) (c : TestCase) (s : Session σ) :
    Divided w r.evidence.captureNetwork (trace r w c s).steps
      (s.capture r.evidence.captureNetwork) (carried r w c s) := by
  unfold carried trace
  split
  · exact runSteps_divided c.steps 0 .empty (now_le_deadline r s) (Session.fresh_capture _ s)
  · exact .nil w _ _ _

theorem noted_eq {qs : List (List (Request σ))} {steps : List StepResult}
    (h : steps.map (·.network) = qs.map (gathered w true)) :
    steps.flatMap (fun y => y.network.getD []) = qs.flatten.flatMap (·.responses w) := by
  have hflat := congrArg (List.flatMap fun network => network.getD []) h
  simp only [List.flatMap_map, gathered, if_true, Option.getD_some] at hflat
  rw [hflat, ← List.flatMap_id, List.flatMap_assoc]
  rfl

theorem ending_of_run (h : run r w c s = (.done x, t)) (hx : x.termination ≠ .timedOut) :
    ∃ termination, (carried r w c s).ending = .done termination := by
  rw [run_eq] at h
  split at h
  · rename_i termination hend
    exact ⟨termination, hend⟩
  · cases h
    exact absurd rfl hx
  · cases h

theorem run_attributed (h : run r w c s = (.done x, t)) :
    (trace r w c s).Attributed w r.evidence.captureNetwork x ∧
      t.events = s.events ++ (trace r w c s).events r.evidence.captureNetwork ∧
      Request.Leads w (trace r w c s).steps.flatten s.page s.now t.page t.now := by
  have hdivided := carried_divided r w c s
  have hnetworks := hdivided.networks
  have hbegun := hdivided.begun
  rw [← run_steps h] at hnetworks hbegun
  generalize r.evidence.captureNetwork = on at *
  have hnoted : on = true →
      x.noted = ((trace r w c s).steps.take x.steps.length).flatten.flatMap (·.responses w) := by
    rintro rfl
    exact noted_eq hnetworks
  refine ⟨⟨hnetworks, ?_, ?_, ?_, ?_⟩, ?_, ?_⟩
  · rintro rfl y hy
    have hy := List.mem_map_of_mem (f := (·.network)) hy
    rw [hnetworks] at hy
    obtain ⟨q, -, hq⟩ := List.mem_map.mp hy
    exact hq.symm
  · omega
  · intro hon
    rw [hnoted hon, ← List.flatMap_append, ← List.flatten_append, List.take_append_drop]
    rfl
  · intro hx
    obtain ⟨termination, hend⟩ := ending_of_run h hx
    have hall : (trace r w c s).steps.length = x.steps.length := by
      rcases hbegun with hall | ⟨-, halt, hhalt⟩
      · exact hall
      · cases hend.symm.trans hhalt
    refine ⟨hall, fun hon => ?_⟩
    rw [hnoted hon, ← hall, List.take_length]
    rfl
  · rw [session_of_run h, Session.capture_events, hdivided.events, Session.capture_events]
    simp only [CaseTrace.events, trace, List.append_assoc, List.cons_append, List.nil_append]
  · rw [session_of_run h]
    exact hdivided.leads

end CaseRun

theorem CaseTrace.Attributed.noted_prefix {w : World σ} {on : Bool} {q : CaseTrace σ} {x : CaseResult}
    (h : q.Attributed w on x) : x.noted <+: q.responses w := by
  cases on with
  | true => exact ⟨_, h.missing rfl⟩
  | false =>
    have hnone : x.noted = [] := by
      refine List.flatMap_eq_nil_iff.mpr fun y hy => ?_
      rw [h.unwanted rfl y hy]
      rfl
    rw [hnone]
    exact List.nil_prefix

/-! ## Lists of cases -/

namespace Run

/-- The requests of cases that are carried out one after the other. -/
def traces (r : CaseRunner) (w : World σ) : List TestCase → Session σ → List (CaseTrace σ)
  | [], _ => []
  | c :: cs, s => CaseRun.trace r w c s :: traces r w cs (CaseRun.run r w c s).2

/-- On a calm browser each response that a list of cases brings about is noted with the step whose
request it answers, once and in order, but for those of steps that the deadline cut. -/
theorem responses_attributed (r : CaseRunner) {w : World σ} (hw : w.Calm) (cases : List TestCase)
    (s : Session σ) :
    let on := r.evidence.captureNetwork
    let qs := traces r w cases s
    ∃ results t, runCases r w cases s = (results, none, t) ∧
      List.Forall₂ (CaseTrace.Attributed w on) qs results ∧
      (results.flatMap (·.noted)).Sublist (qs.flatMap (·.responses w)) ∧
      t.events = s.events ++ qs.flatMap (·.events on) ∧
      Request.Leads w (qs.flatMap (·.steps.flatten)) s.page s.now t.page t.now := by
  induction cases generalizing s with
  | nil =>
    exact ⟨[], s, rfl, .nil, List.Sublist.refl _, (List.append_nil _).symm, .nil (Nat.le_refl _)⟩
  | cons c cs ih =>
    obtain ⟨x, t, hrun⟩ := CaseRun.run_done_of_calm r hw c s
    obtain ⟨hx, hevents, hleads⟩ := CaseRun.run_attributed hrun
    obtain ⟨results, u, hrest, hall, hnoted, hevents', hleads'⟩ := ih t
    refine ⟨x :: results, u, ?_, ?_, ?_, ?_, ?_⟩
    · rw [runCases_cons, hrun]
      simp only [hrest]
    · rw [traces, hrun]
      exact .cons hx hall
    · rw [traces, hrun]
      exact hx.noted_prefix.sublist.append hnoted
    · rw [traces, hrun, hevents', hevents, List.append_assoc]
      rfl
    · rw [traces, hrun]
      exact hleads.append hleads'

/-- A browser that receives a response on every text that is read and at the end of every click, of
which the clicks take a while and no field can be filled. -/
def chatty : Browser.Script where
  rules := [⟨"click", "*", none, 1200, .succeed⟩, ⟨"fill", "*", none, 0, .fail .disconnected⟩]
  texts := [("css=h1", "Welcome")]
  echoes := [⟨"read_text", "*", ⟨"https://x.test/h1", "GET", 200, 3⟩⟩,
    ⟨"click", "*", ⟨"https://x.test/buy", "POST", 201, 40⟩⟩]
  screenshot := []

/-- A case that is cut after the response to its third click, one that fails, and one that completes. -/
theorem responses_attributed_chatty :
    let r : CaseRunner := { CaseRunner.ofSettings {} StopWords.usual.resolver "run" "https://x.test/"
      with
        execution := { caseTimeoutSecs := 5 }
        evidence := { captureScreenshots := false, captureNetwork := true } }
    let w := chatty.world false ⟨0, 0⟩
    let cut : TestCase :=
      { id := "cut", steps := ["Click \"Buy\"", "Click \"Buy\"", "Click \"Buy\""] }
    let failed : TestCase :=
      { id := "failed", steps := ["Store text from \"h1\" as \"t\"", "Fill \"name\" with \"x\""] }
    let completed : TestCase := { id := "completed", steps := ["Click \"Buy\""] }
    let cases := [cut, failed, completed]
    let s : Session (List Nat) := { page := [] }
    let on := r.evidence.captureNetwork
    let qs := traces r w cases s
    on = true ∧
      qs.map (fun q => q.steps.map fun p => (p.flatMap (·.responses w)).length) =
        [[1, 1, 1], [1, 0], [1]] ∧
      (runCases r w cases s).1.map
          (fun x => (x.termination, x.steps.map fun y => y.network.map (·.length))) =
        [(.timedOut, [some 1, some 1]), (.aborted, [some 1, some 0]), (.completed, [some 1])] ∧
      ∃ results t, runCases r w cases s = (results, none, t) ∧
        List.Forall₂ (CaseTrace.Attributed w on) qs results ∧
        (results.flatMap (·.noted)).Sublist (qs.flatMap (·.responses w)) ∧
        t.events = s.events ++ qs.flatMap (·.events on) ∧
        Request.Leads w (qs.flatMap (·.steps.flatten)) s.page s.now t.page t.now := by
  intro r w cut failed completed cases s on qs
  have hw : w.Calm := Browser.Script.calm_world (by simp [chatty]) _ _
  refine ⟨rfl, by decide +kernel, by decide +kernel, ?_⟩
  exact responses_attributed r hw cases s

end Run

end PlainSteps
