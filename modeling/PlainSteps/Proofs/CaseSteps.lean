import PlainSteps.CaseRun
import PlainSteps.Proofs.ScriptedBrowser

/-!
# One step of a case

* `CaseRun.oneStep` : a step from its sentence to its recorded result, published before and after.
* `CaseRun.runSteps_cons` : the steps of a case are such steps in turn, up to the first that fails.
* `CaseRun.oneStep_done` : what a recorded result is like.
* `CaseRun.run_eq` : how a case ends, by how its steps end.
-/

namespace PlainSteps

variable {σ : Type}

/-! ## What makes no request -/

namespace Session

@[simp] theorem publish_now (s : Session σ) (p : Progress) : (s.publish p).now = s.now := rfl

@[simp] theorem publish_events (s : Session σ) (p : Progress) :
    (s.publish p).events = s.events := rfl

@[simp] theorem publish_page (s : Session σ) (p : Progress) : (s.publish p).page = s.page := rfl

@[simp] theorem capture_now (s : Session σ) (on : Bool) : (s.capture on).now = s.now := rfl

@[simp] theorem capture_events (s : Session σ) (on : Bool) :
    (s.capture on).events = s.events ++ [.capture s.now on] := rfl

@[simp] theorem drain_now (s : Session σ) : s.drain.2.now = s.now := by
  unfold drain
  split <;> rfl

@[simp] theorem drain_events (s : Session σ) : s.drain.2.events = s.events := by
  unfold drain
  split <;> rfl

@[simp] theorem drain_page (s : Session σ) : s.drain.2.page = s.page := by
  unfold drain
  split <;> rfl

end Session

/-! ## Results of steps -/

/-- A step has been judged: it passed or failed, it has an error exactly when it failed, and a note
only when it passed. -/
structure StepResult.Settled (x : StepResult) : Prop where
  judged : x.status = .pass ∨ x.status = .fail
  error_iff : x.error.isSome ↔ x.status = .fail
  note_imp : x.note.isSome → x.status = .pass

theorem StepResult.settled_judged (index : Nat) (description : String) (began now : Timestamp)
    (elapsed : Nat) (v : Verdict) :
    ((StepResult.begun index description began).judged v now elapsed).Settled := by
  cases v with
  | done => exact ⟨.inl rfl, by simp [StepResult.judged, finish, begun], fun _ => rfl⟩
  | skipped note => exact ⟨.inl rfl, by simp [StepResult.judged, finish, begun], fun _ => rfl⟩
  | failed e =>
    exact ⟨.inr rfl, by simp [StepResult.judged, finish], by simp [StepResult.judged, finish, begun]⟩

theorem StepResult.index_judged (x : StepResult) (v : Verdict) (now : Timestamp) (elapsed : Nat) :
    (x.judged v now elapsed).index = x.index := by
  cases v <;> rfl

theorem StepResult.isFail_iff {x : StepResult} : x.isFail = true ↔ x.status = .fail := by
  simp [isFail]

theorem StepResult.Settled.pass_of_not_isFail {x : StepResult} (h : x.Settled)
    (hx : ¬x.isFail = true) : x.status = .pass := by
  rcases h.judged with hpass | hfail
  · exact hpass
  · exact absurd (isFail_iff.mpr hfail) hx

namespace CaseRun

/-! ## Carrying out a step -/

theorem runStep_eq (x : Step.Context) (w : World σ) (deadline : Option Nat) (index : Nat)
    (description : String) (action : Action) (vars : Variables) (s : Session σ) :
    runStep x w deadline index description action vars s =
      Ended.andThen ((Step.perform x action vars).run w deadline s) fun p t =>
        Ended.andThen ((Step.close x index).run w deadline t) fun screenshot u =>
          (.done ({ (StepResult.begun index description (s.moment w)).judged p.1 (t.moment w)
            (t.now - s.now) with screenshot }, p.2), u) := by
  unfold runStep
  rcases (Step.perform x action vars).run w deadline s with ⟨⟨verdict, vars'⟩ | h, t⟩
  · simp only [Ended.andThen_done]
    rcases (Step.close x index).run w deadline t with ⟨screenshot | h, u⟩ <;> rfl
  · rfl

theorem runStep_session (x : Step.Context) (w : World σ) (deadline : Option Nat) (index : Nat)
    (description : String) (action : Action) (vars : Variables) (s : Session σ) :
    (runStep x w deadline index description action vars s).2 =
      (((Step.perform x action vars).bind fun _ => Step.close x index).run w deadline s).2 := by
  rw [runStep_eq, Routine.run_bind]
  rcases (Step.perform x action vars).run w deadline s with ⟨p | h, t⟩
  · simp only [Ended.andThen_done]
    rcases (Step.close x index).run w deadline t with ⟨shot | h, u⟩ <;> rfl
  · rfl

/-- The session once a step is published as begun. -/
def beginStep (r : CaseRunner) (w : World σ) (caseId : String) (index : Nat) (description : String)
    (s : Session σ) : Session σ :=
  publish r caseId (.begun index description (s.moment w)) s

/-- The result of a step with the responses noted meanwhile, and the session once it is published. -/
def endStep (r : CaseRunner) (caseId : String) (p : StepResult × Variables) (s : Session σ) :
    Ended (StepResult × Variables) × Session σ :=
  let result := { p.1 with network := s.drain.1 }
  (.done (result, p.2), publish r caseId result s.drain.2)

/-- A step of a case: its sentence is read with the variables as they are, it is published as begun,
carried out, given the responses noted meanwhile, and published again. -/
def oneStep (r : CaseRunner) (w : World σ) (deadline : Option Nat) (caseId raw : String)
    (index : Nat) (vars : Variables) (s : Session σ) : Ended (StepResult × Variables) × Session σ :=
  let text := vars.substitute raw
  let description := Sentence.normalize text
  Ended.andThen (runStep (r.context caseId) w deadline index description
    (Sentence.classify r.rules text) vars (beginStep r w caseId index description s))
    (endStep r caseId)

@[simp] theorem endStep_now (r : CaseRunner) (caseId : String) (p : StepResult × Variables)
    (s : Session σ) : (endStep r caseId p s).2.now = s.now := by
  simp [endStep, publish]

theorem runSteps_nil (r : CaseRunner) (w : World σ) (deadline : Option Nat) (caseId : String)
    (index : Nat) (vars : Variables) (s : Session σ) :
    runSteps r w deadline caseId [] index vars s = ⟨[], .done .completed, s⟩ := rfl

theorem runSteps_cons (r : CaseRunner) (w : World σ) (deadline : Option Nat) (caseId raw : String)
    (rest : List String) (index : Nat) (vars : Variables) (s : Session σ) :
    runSteps r w deadline caseId (raw :: rest) index vars s =
      match oneStep r w deadline caseId raw index vars s with
      | (.halted h, t) => ⟨[], .halted h, t⟩
      | (.done (result, vars), t) =>
        if result.isFail then ⟨[result], .done .aborted, t⟩
        else
          let others := runSteps r w deadline caseId rest (index + 1) vars t
          { others with steps := result :: others.steps } := by
  simp only [runSteps, oneStep, beginStep]
  rcases runStep (r.context caseId) w deadline index (Sentence.normalize (vars.substitute raw))
    (Sentence.classify r.rules (vars.substitute raw)) vars _ with ⟨⟨result, vars'⟩ | h, t⟩
  · rfl
  · rfl

section oneStep

variable {r : CaseRunner} {w : World σ} {deadline : Option Nat} {caseId raw : String} {index : Nat}
  {vars vars' : Variables} {s t : Session σ} {result : StepResult} {h : Halt}

@[simp] theorem beginStep_now (description : String) :
    (beginStep r w caseId index description s).now = s.now := rfl

theorem inTime_beginStep {description : String} (hs : s.InTime deadline) :
    (beginStep r w caseId index description s).InTime deadline := hs

theorem oneStep_eq_done
    (e : oneStep r w deadline caseId raw index vars s = (.done (result, vars'), t)) :
    ∃ verdict t₁ screenshot t₂,
      (Step.perform (r.context caseId) (Sentence.classify r.rules (vars.substitute raw)) vars).run w
        deadline (beginStep r w caseId index (Sentence.normalize (vars.substitute raw)) s) =
          (.done (verdict, vars'), t₁) ∧
      (Step.close (r.context caseId) index).run w deadline t₁ = (.done screenshot, t₂) ∧
      result = { (StepResult.begun index (Sentence.normalize (vars.substitute raw))
        (s.moment w)).judged verdict (t₁.moment w) (t₁.now - s.now) with
          screenshot, network := t₂.drain.1 } ∧
      t = publish r caseId result t₂.drain.2 := by
  obtain ⟨p, t₂, e₀, e₂⟩ := Ended.andThen_eq_done e
  rw [runStep_eq] at e₀
  obtain ⟨q, t₁, e₁, e₃⟩ := Ended.andThen_eq_done e₀
  obtain ⟨screenshot, t₂, e₃, e₄⟩ := Ended.andThen_eq_done e₃
  cases e₄
  cases e₂
  exact ⟨q.1, t₁, screenshot, t₂, e₁, e₃, rfl, rfl⟩

theorem oneStep_eq_halted (e : oneStep r w deadline caseId raw index vars s = (.halted h, t)) :
    (Step.perform (r.context caseId) (Sentence.classify r.rules (vars.substitute raw)) vars).run w
      deadline (beginStep r w caseId index (Sentence.normalize (vars.substitute raw)) s) =
        (.halted h, t) ∨
    ∃ p t₁,
      (Step.perform (r.context caseId) (Sentence.classify r.rules (vars.substitute raw)) vars).run w
        deadline (beginStep r w caseId index (Sentence.normalize (vars.substitute raw)) s) =
          (.done p, t₁) ∧
      (Step.close (r.context caseId) index).run w deadline t₁ = (.halted h, t) := by
  rcases Ended.andThen_eq_halted e with e | ⟨p, t₂, e₁, e₂⟩
  · rw [runStep_eq] at e
    rcases Ended.andThen_eq_halted e with e | ⟨q, t₁, e₁, e₂⟩
    · exact .inl e
    · rcases Ended.andThen_eq_halted e₂ with e | ⟨screenshot, t₂, e₃, e₄⟩
      · exact .inr ⟨q, t₁, e₁, e⟩
      · cases e₄
  · cases e₂

/-- A recorded step has its place in the case and has been judged, and ended in time. -/
theorem oneStep_done (hs : s.InTime deadline)
    (e : oneStep r w deadline caseId raw index vars s = (.done (result, vars'), t)) :
    result.index = index ∧ result.Settled ∧ t.InTime deadline := by
  obtain ⟨verdict, t₁, screenshot, t₂, e₁, e₂, rfl, rfl⟩ := oneStep_eq_done e
  have h₁ : t₁.InTime deadline := Routine.inTime_of_run (inTime_beginStep hs) e₁
  have h₂ : t₂.InTime deadline := Routine.inTime_of_run h₁ e₂
  have hsettled := StepResult.settled_judged index (Sentence.normalize (vars.substitute raw))
    (s.moment w) (t₁.moment w) (t₁.now - s.now) verdict
  refine ⟨StepResult.index_judged _ _ _ _, ⟨hsettled.judged, hsettled.error_iff, hsettled.note_imp⟩,
    ?_⟩
  intro d hd
  simpa [publish] using h₂ d hd

theorem oneStep_halted (hs : s.InTime deadline)
    (e : oneStep r w deadline caseId raw index vars s = (.halted h, t)) :
    h.Explained w deadline fun _ => True := by
  rcases oneStep_eq_halted e with e | ⟨p, t₁, e₁, e₂⟩
  · exact Routine.run_halted (Routine.asks_true _) (inTime_beginStep hs) e
  · have ht : t₁.InTime deadline := Routine.inTime_of_run (inTime_beginStep hs) e₁
    exact Routine.run_halted (Routine.asks_true _) ht e₂

theorem runSteps_cons_of_pass {rest : List String}
    (e : oneStep r w deadline caseId raw index vars s = (.done (result, vars'), t))
    (hpass : result.status = .pass) :
    runSteps r w deadline caseId (raw :: rest) index vars s =
      { runSteps r w deadline caseId rest (index + 1) vars' t with
        steps := result :: (runSteps r w deadline caseId rest (index + 1) vars' t).steps } := by
  have hfail : ¬result.isFail = true := by
    rw [StepResult.isFail_iff, hpass]
    decide
  rw [runSteps_cons, e]
  exact if_neg hfail

theorem ending_cons_of_halted {rest : List String}
    (e : (oneStep r w deadline caseId raw index vars s).1 = .halted h) :
    (runSteps r w deadline caseId (raw :: rest) index vars s).ending = .halted h := by
  rw [runSteps_cons]
  rcases hstep : oneStep r w deadline caseId raw index vars s with ⟨x, t⟩
  rw [hstep] at e
  obtain rfl : x = .halted h := e
  rfl

end oneStep

theorem runSteps_halted {r : CaseRunner} {w : World σ} {deadline : Option Nat} {caseId : String}
    {raws : List String} {index : Nat} {vars : Variables} {s : Session σ} {h : Halt}
    (hs : s.InTime deadline)
    (e : (runSteps r w deadline caseId raws index vars s).ending = .halted h) :
    h.Explained w deadline fun _ => True := by
  induction raws generalizing index vars s with
  | nil => cases e
  | cons raw rest ih =>
    rw [runSteps_cons] at e
    rcases hstep : oneStep r w deadline caseId raw index vars s with ⟨⟨result, vars'⟩ | h', t⟩
    · simp only [hstep] at e
      split at e
      · cases e
      · exact ih (oneStep_done hs hstep).2.2 e
    · simp only [hstep] at e
      obtain rfl : h' = h := by injection e
      exact oneStep_halted hs hstep

/-! ## A whole case -/

/-- The steps of a case carried out under its deadline. -/
def carried (r : CaseRunner) (w : World σ) (c : TestCase) (s : Session σ) : StepsRun σ :=
  if s.now < deadline r s || w.lenient (deadline r s) then
    runSteps r w (some (deadline r s)) c.id c.steps 0 .empty (s.capture r.evidence.captureNetwork)
  else ⟨[], .halted .deadline, s.capture r.evidence.captureNetwork⟩

/-- The result of a case whose steps have ended, and the session after it. -/
def concluded (w : World σ) (c : TestCase) (s : Session σ) (x : StepsRun σ)
    (termination : Termination) (error : Option String) : Ended CaseResult × Session σ :=
  let t := x.session.capture false
  (.done (.ofSteps c x.steps termination error (s.moment w) (t.moment w) (t.now - s.now)), t)

theorem run_eq (r : CaseRunner) (w : World σ) (c : TestCase) (s : Session σ) :
    run r w c s =
      match (carried r w c s).ending with
      | .done termination => concluded w c s (carried r w c s) termination none
      | .halted .deadline =>
        concluded w c s (carried r w c s) .timedOut
          (some (deadlineMessage r.execution.caseTimeoutSecs.toNat))
      | .halted h => (.halted h, (carried r w c s).session) := rfl

theorem now_le_deadline (r : CaseRunner) (s : Session σ) : s.now ≤ deadline r s :=
  Nat.le_add_right _ _

theorem now_lt_deadline {r : CaseRunner} (h : 0 < r.execution.caseTimeoutSecs) (s : Session σ) :
    s.now < deadline r s := by
  have hsecs : 0 < r.execution.caseTimeoutSecs.toNat := UInt64.lt_iff_toNat_lt.mp h
  simp only [deadline, Session.longest, ExecutionSettings.caseTimeout]
  omega

theorem inTime_start (r : CaseRunner) (s : Session σ) :
    (s.capture r.evidence.captureNetwork).InTime (some (deadline r s)) :=
  Session.inTime_some.mpr (now_le_deadline r s)

theorem carried_of_pos {r : CaseRunner} (h : 0 < r.execution.caseTimeoutSecs) (w : World σ)
    (c : TestCase) (s : Session σ) :
    carried r w c s = runSteps r w (some (deadline r s)) c.id c.steps 0 .empty
      (s.capture r.evidence.captureNetwork) := by
  simp [carried, now_lt_deadline h s]

theorem carried_halted {r : CaseRunner} {w : World σ} {c : TestCase} {s : Session σ} {h : Halt}
    (e : (carried r w c s).ending = .halted h) :
    h.Explained w (some (deadline r s)) fun _ => True := by
  unfold carried at e
  split at e
  · exact runSteps_halted (inTime_start r s) e
  · obtain rfl : Halt.deadline = h := by injection e
    simp [Halt.Explained]

theorem concluded_of_run {r : CaseRunner} {w : World σ} {c : TestCase} {s t : Session σ}
    {x : CaseResult} (h : run r w c s = (.done x, t)) : ∃ termination error,
      concluded w c s (carried r w c s) termination error = (.done x, t) := by
  rw [run_eq] at h
  split at h
  · exact ⟨_, _, h⟩
  · exact ⟨_, _, h⟩
  · cases h

theorem run_steps {r : CaseRunner} {w : World σ} {c : TestCase} {s t : Session σ} {x : CaseResult}
    (h : run r w c s = (.done x, t)) : x.steps = (carried r w c s).steps := by
  obtain ⟨termination, error, h⟩ := concluded_of_run h
  cases h
  rfl

theorem session_of_run (h : run r w c s = (.done x, t)) :
    t = (carried r w c s).session.capture false := by
  obtain ⟨termination, error, h⟩ := concluded_of_run h
  cases h
  rfl

theorem run_halted {r : CaseRunner} {w : World σ} {c : TestCase} {s t : Session σ} {h : Halt}
    (e : run r w c s = (.halted h, t)) : ∃ b, h = .breakdown b := by
  rw [run_eq] at e
  split at e
  · cases e
  · cases e
  · rename_i h' hne hend
    cases e
    cases h with
    | deadline => exact absurd rfl hne
    | breakdown b => exact ⟨b, rfl⟩
    | stuck => cases carried_halted hend

/-- On a calm browser a case comes to the end of its steps or to its deadline. -/
theorem carried_ending (r : CaseRunner) {w : World σ} (hw : w.Calm) (c : TestCase)
    (s : Session σ) :
    (carried r w c s).ending = .halted .deadline ∨
      ∃ termination, (carried r w c s).ending = .done termination := by
  rcases e : (carried r w c s).ending with termination | h
  · exact .inr ⟨termination, rfl⟩
  · rcases (carried_halted e).of_calm hw with ⟨-, rfl⟩ | ⟨hd, -⟩
    · exact .inl rfl
    · cases hd

theorem run_done_of_calm (r : CaseRunner) {w : World σ} (hw : w.Calm) (c : TestCase)
    (s : Session σ) : ∃ result t, run r w c s = (.done result, t) := by
  rcases carried_ending r hw c s with he | ⟨termination, he⟩
  · exact ⟨_, _, by rw [run_eq, he]; rfl⟩
  · exact ⟨_, _, by rw [run_eq, he]; rfl⟩

end CaseRun

end PlainSteps
