import PlainSteps.Proofs.Deadline
import PlainSteps.Proofs.ObligingBrowser
import PlainSteps.Proofs.PairedRuns
import PlainSteps.Proofs.StepScreenshots

/-!
# Screenshots do not change the verdict

`CaseRun.screenshots_harmless`: with screenshots and without them a case comes to the same, on a browser
that answers all other requests regardless of them. Whatever becomes of a screenshot, the same steps are
recorded with the same verdicts, and the same is asked of the browser but for the images.

Both runs are compared as they are without a deadline, which is how a case ends that is not cut
(`CaseRun.carried_eq_uncut`). They go side by side (`Session.Abreast`): an action comes to the same in
both, and the request for an image that follows it in only one of them leaves the two abreast
(`Step.close_follows`). Without a deadline that request may never end, in which case there is nothing to
compare (`Ended.Follows`); under one the case would have been cut.
-/

namespace PlainSteps

variable {σ α β : Type}

/-- The same runner, with or without screenshots. -/
def CaseRunner.capturing (r : CaseRunner) (on : Bool) : CaseRunner :=
  { r with evidence := { r.evidence with captureScreenshots := on } }

/-! ## Requests other than for images -/

def unshot (calls : List Call) : List Call :=
  calls.filter fun c => !c.isScreenshot

theorem unshot_concat_of_screenshot {c : Call} (hc : c.isScreenshot = true) (calls : List Call) :
    unshot (calls ++ [c]) = unshot calls := by
  simp [unshot, hc]

theorem unshot_concat {c : Call} (hc : c.isScreenshot = false) (calls : List Call) :
    unshot (calls ++ [c]) = unshot calls ++ [c] := by
  simp [unshot, hc]

theorem unshot_unshot (calls : List Call) : unshot (unshot calls) = unshot calls := by
  simp [unshot]

/-- From a page on, a request other than for an image is answered the same whatever images were asked
for before and at whatever times the requests were made. Requests for images may come to anything but a
breakdown. -/
structure World.Unposed (w : World σ) (page : σ) : Prop where
  answers : ∀ (made made' : List (Nat × Call)) (time time' : Nat) (c : Call),
    unshot (made.map (·.2)) = unshot (made'.map (·.2)) → c.isScreenshot = false →
    (w.answer (w.after page made) time c).delay = (w.answer (w.after page made') time' c).delay ∧
      (w.answer (w.after page made) time c).outcome = (w.answer (w.after page made') time' c).outcome
  screenshots : ∀ made time fullPage b,
    (w.answer (w.after page made) time (.screenshot fullPage)).outcome ≠ .breakdown b

/-! ## Sessions side by side -/

namespace Session

/-- From the same page on, and the same requests up to it, the first session has made the requests of
the second and some more for images. -/
def Abreast (w : World σ) (page : σ) (base : List Call) (s t : Session σ) : Prop :=
  ∃ made made' : List (Nat × Call), s.page = w.after page made ∧ t.page = w.after page made' ∧
    s.requests = base ++ made.map (·.2) ∧ t.requests = base ++ made'.map (·.2) ∧
    made'.map (·.2) = unshot (made.map (·.2))

@[simp] theorem requests_made (w : World σ) (c : Call) (s : Session σ) :
    (s.made w c).requests = s.requests ++ [c] := by
  simp [requests]

namespace Abreast

variable {w : World σ} {page : σ} {base : List Call} {s s' t t' : Session σ} {c : Call}

theorem congr (h : s.Abreast w page base t) (hs : s'.page = s.page) (hs' : s'.events = s.events)
    (ht : t'.page = t.page) (ht' : t'.events = t.events) : s'.Abreast w page base t' := by
  obtain ⟨made, made', hpage, hpage', hmade, hmade', hunshot⟩ := h
  exact ⟨made, made', hs.trans hpage, ht.trans hpage', (requests_congr hs').trans hmade,
    (requests_congr ht').trans hmade', hunshot⟩

theorem asked (h : s.Abreast w page base t) (hc : c.isScreenshot = false)
    (hs : s'.page = (s.made w c).page) (hs' : s'.requests = s.requests ++ [c])
    (ht : t'.page = (t.made w c).page) (ht' : t'.requests = t.requests ++ [c]) :
    s'.Abreast w page base t' := by
  obtain ⟨made, made', hpage, hpage', hmade, hmade', hunshot⟩ := h
  refine ⟨made ++ [(s.now, c)], made' ++ [(t.now, c)], ?_, ?_, ?_, ?_, ?_⟩
  · rw [hs, w.after_concat, ← hpage]
    rfl
  · rw [ht, w.after_concat, ← hpage']
    rfl
  · rw [hs', hmade, List.map_append, List.append_assoc]
    rfl
  · rw [ht', hmade', List.map_append, List.append_assoc]
    rfl
  · rw [List.map_append, List.map_append, hunshot]
    exact (unshot_concat hc _).symm

theorem shot (h : s.Abreast w page base t) (hc : c.isScreenshot = true)
    (hs : s'.page = (s.made w c).page) (hs' : s'.requests = s.requests ++ [c]) :
    s'.Abreast w page base t := by
  obtain ⟨made, made', hpage, hpage', hmade, hmade', hunshot⟩ := h
  refine ⟨made ++ [(s.now, c)], made', ?_, hpage', ?_, hmade', ?_⟩
  · rw [hs, w.after_concat, ← hpage]
    rfl
  · rw [hs', hmade, List.map_append, List.append_assoc]
    rfl
  · rw [List.map_append, hunshot]
    exact (unshot_concat_of_screenshot hc _).symm

theorem capture (h : s.Abreast w page base t) (on on' : Bool) :
    (s.capture on).Abreast w page base (t.capture on') := by
  obtain ⟨made, made', hpage, hpage', hmade, hmade', hunshot⟩ := h
  exact ⟨made, made', hpage, hpage', (requests_capture s on).trans hmade,
    (requests_capture t on').trans hmade', hunshot⟩

theorem exists_requests (h : s.Abreast w page base t) :
    ∃ calls, s.requests = base ++ calls ∧ t.requests = base ++ unshot calls := by
  obtain ⟨made, made', -, -, hmade, hmade', hunshot⟩ := h
  exact ⟨made.map (·.2), hmade, hunshot ▸ hmade'⟩

end Abreast

theorem abreast_refl (w : World σ) (s : Session σ) : s.Abreast w s.page s.requests s :=
  ⟨[], [], rfl, rfl, (List.append_nil _).symm, (List.append_nil _).symm, rfl⟩

theorem ask_abreast {w : World σ} {page : σ} {base : List Call} (hw : w.Unposed page) {s t : Session σ}
    {c : Call} (limit : Option Nat) (hc : c.isScreenshot = false) (h : s.Abreast w page base t) :
    Ended.Paired (Abreast w page base) Eq (s.ask w none c limit) (t.ask w none c limit) := by
  obtain ⟨hdelay, houtcome⟩ : (w.answer s.page s.now c).delay = (w.answer t.page t.now c).delay ∧
      (w.answer s.page s.now c).outcome = (w.answer t.page t.now c).outcome := by
    obtain ⟨made, made', hpage, hpage', -, -, hunshot⟩ := h
    rw [hpage, hpage']
    exact hw.answers made made' s.now t.now c (by rw [hunshot, unshot_unshot]) hc
  refine ask_paired limit hdelay houtcome (fun _ => rfl) ?_ (fun ms => ?_) (by simp)
  · exact h.asked hc rfl (requests_made w c s) rfl (requests_made w c t)
  · exact h.asked hc rfl (requests_awaited w c _ s) rfl (requests_awaited w c _ t)

end Session

/-- Without a deadline, a routine that asks for no image comes to the same in sessions side by side. -/
theorem Routine.run_abreast {w : World σ} {page : σ} {base : List Call} (hw : w.Unposed page)
    {r : Routine α} (hr : r.Asks fun c => c.isScreenshot = false) (hfiles : r.Saveless)
    {s t : Session σ} (h : s.Abreast w page base t) :
    Ended.Paired (Session.Abreast w page base) Eq (r.run w none s) (r.run w none t) :=
  run_paired (fun _ limit hc h => Session.ask_abreast hw limit hc h)
    (fun _ h => ⟨rfl, h.congr rfl rfl rfl rfl⟩) hr (.inl hfiles) h

/-! ## Ends side by side -/

namespace Ended

/-- Two ends are alike, unless the first never comes. -/
def Follows (I : Session σ → Session σ → Prop) (R : α → β → Prop) (x : Ended α × Session σ)
    (y : Ended β × Session σ) : Prop :=
  x.1 = .halted .stuck ∨ Paired I R x y

theorem Follows.andThen {γ δ : Type} {I : Session σ → Session σ → Prop} {R : α → β → Prop}
    {S : γ → δ → Prop} {x : Ended α × Session σ} {y : Ended β × Session σ}
    {f : α → Session σ → Ended γ × Session σ} {g : β → Session σ → Ended δ × Session σ}
    (h : Follows I R x y) (hfg : ∀ p q s t, R p q → I s t → Follows I S (f p s) (g q t)) :
    Follows I S (Ended.andThen x f) (Ended.andThen y g) := by
  rcases h with hstuck | h
  · obtain ⟨x₁, s⟩ := x
    obtain rfl : x₁ = .halted .stuck := hstuck
    exact .inl rfl
  · cases h with
    | done hpq h => exact hfg _ _ _ _ hpq h
    | halted h => exact .inr (.halted h)

end Ended

/-! ## Steps -/

/-- Two results say the same of a step. They may differ in times, in responses and in the screenshot. -/
structure StepResult.Concurs (x y : StepResult) : Prop where
  index : x.index = y.index
  description : x.description = y.description
  status : x.status = y.status
  error : x.error = y.error
  note : x.note = y.note

theorem StepResult.concurs_judged (index : Nat) (description : String) (v : Verdict)
    (began began' now now' : Timestamp) (elapsed elapsed' : Nat) :
    ((begun index description began).judged v now elapsed).Concurs
      ((begun index description began').judged v now' elapsed') := by
  cases v <;> exact ⟨rfl, rfl, rfl, rfl, rfl⟩

namespace Step

open Routine

variable {w : World σ} {page : σ} {base : List Call} {s t : Session σ}

theorem takeScreenshot_follows (hw : w.Unposed page) (folder : String) (index : Nat)
    (h : s.Abreast w page base t) :
    Ended.Follows (Session.Abreast w page base) (fun _ _ => True)
      ((takeScreenshot folder index).run w none s)
      ((done none : Routine (Option Screenshot)).run w none t) := by
  have hbreakdown : ∀ b, (w.answer s.page s.now (.screenshot true)).outcome ≠ .breakdown b := by
    obtain ⟨made, made', hpage, -⟩ := h
    intro b
    rw [hpage]
    exact hw.screenshots made s.now true b
  rw [takeScreenshot, run_bind, run_request]
  rcases (w.answer s.page s.now (.screenshot true)).delay with _ | ms
  · exact .inl rfl
  · have hshot : (s.awaited w (.screenshot true) (s.now + ms)).Abreast w page base t :=
      h.shot rfl rfl (Session.requests_awaited w _ _ s)
    right
    cases ho : (w.answer s.page s.now (.screenshot true)).outcome with
    | ok v =>
      simp only [Outcome.result, Ended.andThen_done, keepScreenshot, run]
      split
      · exact .done trivial (hshot.congr rfl rfl rfl rfl)
      · exact .done trivial hshot
    | failed error => exact .done trivial hshot
    | breakdown b => exact absurd ho (hbreakdown b)

theorem close_follows (hw : w.Unposed page) (r : CaseRunner) (caseId : String) (index : Nat)
    (h : s.Abreast w page base t) :
    Ended.Follows (Session.Abreast w page base) (fun _ _ => True)
      ((close ((r.capturing true).context caseId) index).run w none s)
      ((close ((r.capturing false).context caseId) index).run w none t) := by
  have hrest : ∀ (a b : Option Screenshot) {s t : Session σ}, s.Abreast w page base t →
      Ended.Follows (Session.Abreast w page base) (fun _ _ => True)
        (((rest r.execution.settleDelay).bind fun _ => done a).run w none s)
        (((rest r.execution.settleDelay).bind fun _ => done b).run w none t) := by
    intro a b s t h
    have hpaired := run_abreast hw (asks_rest r.execution.settleDelay) (saveless_rest _) h
    rw [run_bind, run_bind]
    exact Ended.Follows.andThen (.inr hpaired) fun _ _ s t _ h => .inr (.done trivial h)
  have htake := takeScreenshot_follows hw (Evidence.folder r.evidence.outputDir r.runId caseId) index h
  simp only [close, run_bind _ _ _ (fun a => (rest _).bind fun _ => done a)]
  exact htake.andThen fun a b s t _ h => hrest a b h

end Step

namespace CaseRun

variable {w : World σ} {page : σ} {base : List Call} {s t : Session σ}

theorem oneStep_follows (hw : w.Unposed page) (r : CaseRunner) (caseId raw : String) (index : Nat)
    (vars : Variables) (h : s.Abreast w page base t) :
    Ended.Follows (Session.Abreast w page base) (fun p q => p.1.Concurs q.1 ∧ p.2 = q.2)
      (oneStep (r.capturing true) w none caseId raw index vars s)
      (oneStep (r.capturing false) w none caseId raw index vars t) := by
  have hperform := Step.perform_congr (x := (r.capturing true).context caseId)
    (y := (r.capturing false).context caseId) ⟨rfl, rfl, rfl, rfl, rfl⟩
  have hbegun : (beginStep (r.capturing true) w caseId index (Sentence.normalize (vars.substitute raw))
      s).Abreast w page base
      (beginStep (r.capturing false) w caseId index (Sentence.normalize (vars.substitute raw)) t) :=
    h.congr rfl rfl rfl rfl
  have hacted := Routine.run_abreast hw
    (Step.asks_perform_unshot ((r.capturing false).context caseId)
      (Sentence.classify r.rules (vars.substitute raw)) vars)
    (Step.saveless_perform _ _ _) hbegun
  refine Ended.Follows.andThen (R := fun p q => p.1.Concurs q.1 ∧ p.2 = q.2) ?_ ?_
  · rw [runStep_eq, runStep_eq, hperform]
    refine Ended.Follows.andThen (.inr hacted) ?_
    rintro ⟨verdict, vars'⟩ - s t rfl h
    refine (Step.close_follows hw r caseId index h).andThen fun shot shot' s t _ h => .inr (.done ?_ h)
    obtain ⟨hindex, hdescription, hstatus, herror, hnote⟩ := StepResult.concurs_judged index
      (Sentence.normalize (vars.substitute raw)) verdict _ _ _ _ _ _
    exact ⟨⟨hindex, hdescription, hstatus, herror, hnote⟩, rfl⟩
  · rintro p q s t ⟨⟨hindex, hdescription, hstatus, herror, hnote⟩, hvars⟩ h
    have hended : (endStep (r.capturing true) caseId p s).2.Abreast w page base
        (endStep (r.capturing false) caseId q t).2 :=
      h.congr (by simp [endStep, publish]) (by simp [endStep, publish]) (by simp [endStep, publish])
        (by simp [endStep, publish])
    exact .inr (.done ⟨⟨hindex, hdescription, hstatus, herror, hnote⟩, hvars⟩ hended)

/-- The steps of a case are recorded alike, unless one of the first never ends. -/
theorem runSteps_concurs (hw : w.Unposed page) (r : CaseRunner) (caseId : String) (raws : List String)
    (index : Nat) (vars : Variables) (h : s.Abreast w page base t)
    (hends : (runSteps (r.capturing true) w none caseId raws index vars s).ending ≠ .halted .stuck) :
    let x := runSteps (r.capturing true) w none caseId raws index vars s
    let y := runSteps (r.capturing false) w none caseId raws index vars t
    List.Forall₂ StepResult.Concurs x.steps y.steps ∧ x.ending = y.ending ∧
      x.session.Abreast w page base y.session := by
  induction raws generalizing index vars s t with
  | nil => exact ⟨.nil, rfl, h⟩
  | cons raw rest ih =>
    rcases oneStep_follows hw r caseId raw index vars h with hstuck | hpaired
    · exact absurd (ending_cons_of_halted hstuck) hends
    · rw [runSteps_cons] at hends
      simp only [runSteps_cons]
      generalize oneStep (r.capturing true) w none caseId raw index vars s = x at hpaired hends
      generalize oneStep (r.capturing false) w none caseId raw index vars t = y at hpaired
      cases hpaired with
      | @done p q s t hpq h =>
        obtain ⟨result, vars'⟩ := p
        obtain ⟨result', vars'⟩ := q
        obtain ⟨hconcurs, rfl⟩ := hpq
        have hfail : result.isFail = result'.isFail := by
          rw [StepResult.isFail, StepResult.isFail, hconcurs.status]
        simp only [hfail] at hends ⊢
        by_cases hfailed : result'.isFail = true
        · simp only [if_pos hfailed]
          exact ⟨.cons hconcurs .nil, trivial, h⟩
        · simp only [if_neg hfailed] at hends ⊢
          obtain ⟨hsteps, hending, hsessions⟩ := ih (index + 1) _ h hends
          exact ⟨.cons hconcurs hsteps, hending, hsessions⟩
      | halted h => exact ⟨.nil, rfl, h⟩

end CaseRun

/-! ## Cases -/

/-- Two results say the same of a case. They may differ in times and in what the results of the steps may
differ in. -/
structure CaseResult.Concurs (x y : CaseResult) : Prop where
  steps : List.Forall₂ StepResult.Concurs x.steps y.steps
  termination : x.termination = y.termination
  status : x.status = y.status
  summary : x.summary = y.summary
  error : x.error = y.error

theorem StepResult.countP_of_concurs (p : StepStatus → Bool) {xs ys : List StepResult}
    (h : List.Forall₂ Concurs xs ys) : xs.countP (p ·.status) = ys.countP (p ·.status) := by
  induction h with
  | nil => rfl
  | cons hxy _ ih => rw [List.countP_cons, List.countP_cons, ih, hxy.status]

theorem CaseResult.concurs_ofSteps (c : TestCase) (termination : Termination) (error : Option String)
    (began ended began' ended' : Timestamp) (ms ms' : Nat) {xs ys : List StepResult}
    (h : List.Forall₂ StepResult.Concurs xs ys) :
    (ofSteps c xs termination error began ended ms).Concurs
      (ofSteps c ys termination error began' ended' ms') := by
  have hlength := h.length_eq
  have hpassed : xs.countP (·.isPass) = ys.countP (·.isPass) :=
    StepResult.countP_of_concurs (· == .pass) h
  have hfailed : xs.countP (·.isFail) = ys.countP (·.isFail) :=
    StepResult.countP_of_concurs (· == .fail) h
  refine ⟨h, rfl, ?_, ?_, rfl⟩
  · simp only [ofSteps, hfailed, hlength]
  · simp only [ofSteps, CaseSummary.ofSteps, hpassed, hfailed, hlength]

namespace CaseRun

/-- The case reaches its deadline. -/
def TimesOut (r : CaseRunner) (w : World σ) (c : TestCase) (s : Session σ) : Prop :=
  ∃ x t, run r w c s = (.done x, t) ∧ x.termination = .timedOut

variable {r : CaseRunner} {w : World σ} {c : TestCase} {s : Session σ}

theorem not_cut_of_not_timesOut (h : ¬TimesOut r w c s) :
    (carried r w c s).ending ≠ .halted .deadline := by
  intro hend
  have hrun : run r w c s = concluded w c s (carried r w c s) .timedOut
      (some (deadlineMessage r.execution.caseTimeoutSecs.toNat)) := by
    rw [run_eq, hend]
  exact h ⟨_, _, hrun, rfl⟩

theorem uncut_ends (h : ¬TimesOut r w c s) : (uncut r w c s).ending ≠ .halted .stuck := by
  rw [← carried_eq_uncut (not_cut_of_not_timesOut h)]
  intro hend
  cases carried_halted hend

theorem uncut_concurs (hw : w.Unposed s.page) (r : CaseRunner) (c : TestCase)
    (hends : (uncut (r.capturing true) w c s).ending ≠ .halted .stuck) :
    let x := uncut (r.capturing true) w c s
    let y := uncut (r.capturing false) w c s
    List.Forall₂ StepResult.Concurs x.steps y.steps ∧ x.ending = y.ending ∧
      x.session.Abreast w s.page s.requests y.session :=
  runSteps_concurs hw r c.id c.steps 0 .empty ((s.abreast_refl w).capture _ _) hends

/-- With screenshots and without them, a case that neither way reaches its deadline comes to the same: to
a result with the same steps and verdicts, or to the same breakdown. The same is asked of the browser, and
with screenshots, once in each recorded step, for an image of the whole page, after all else that the step
asks for. A step has a screenshot exactly when the image is brought back and can be written: then with
its size and digest. -/
theorem screenshots_harmless (r : CaseRunner) {w : World σ} (c : TestCase) {s : Session σ}
    (hw : w.Unposed s.page) (hon : ¬TimesOut (r.capturing true) w c s)
    (hoff : ¬TimesOut (r.capturing false) w c s) :
    Ended.Paired
        (fun t u => ∃ calls, t.requests = s.requests ++ calls ∧ u.requests = s.requests ++ unshot calls)
        CaseResult.Concurs (run (r.capturing true) w c s) (run (r.capturing false) w c s) ∧
      ∀ x t, run (r.capturing true) w c s = (.done x, t) →
        let q := trace (r.capturing true) w c s
        t.events = s.events ++ q.events r.evidence.captureNetwork ∧
          Request.Leads w q.steps.flatten s.page s.now t.page t.now ∧
          List.Forall₂ (fun qs y => Photographed w (shotPath r c.id y.index) qs y) q.steps x.steps := by
  constructor
  · obtain ⟨hsteps, hending, hsessions⟩ := uncut_concurs hw r c (uncut_ends hon)
    have hafter := (hsessions.capture false false).exists_requests
    rw [run_eq, run_eq, carried_eq_uncut (not_cut_of_not_timesOut hon),
      carried_eq_uncut (not_cut_of_not_timesOut hoff), ← hending]
    rcases (uncut (r.capturing true) w c s).ending with termination | _ | _ | _
    · exact .done (CaseResult.concurs_ofSteps c _ _ _ _ _ _ _ _ hsteps) hafter
    · exact .done (CaseResult.concurs_ofSteps c _ _ _ _ _ _ _ _ hsteps) hafter
    · exact .halted hsessions.exists_requests
    · exact .halted hsessions.exists_requests
  · intro x t hrun
    obtain ⟨hattributed, hevents, hleads⟩ := run_attributed hrun
    have hx : x.termination ≠ .timedOut := fun hx => hon ⟨x, t, hrun, hx⟩
    have hshots := run_photographed rfl hrun
    rw [← (hattributed.complete hx).1, List.take_length] at hshots
    exact ⟨hevents, hleads, hshots⟩

end CaseRun

/-! ## Scripted browsers -/

namespace Browser

theorem pick_of_not_screenshot {c : Call} (hc : c.isScreenshot = false) {rules : List Rule}
    (h : ∀ r ∈ rules, r.word = "screenshot" ∨ r.times = none) (uses : List Nat) :
    (pick c rules uses).1 = rules.find? fun r => names r.word c.word && names r.subject c.subject := by
  have hword : names "screenshot" c.word = false := by
    cases c with
    | screenshot fullPage => cases hc
    | _ => simp [names, Call.word]
  induction rules generalizing uses with
  | nil => rfl
  | cons r rules ih =>
    obtain ⟨hr, hrules⟩ := List.forall_mem_cons.mp h
    rcases hr with hr | hr
    · simp only [pick, hr, hword, Bool.false_and, Bool.false_eq_true, if_false, ih hrules, List.find?_cons]
    · simp only [pick, hr, Bool.and_true, List.find?_cons]
      cases names r.word c.word && names r.subject c.subject with
      | true => rfl
      | false => exact ih hrules _

theorem Script.unposed_world {p : Script}
    (htimes : ∀ r ∈ p.rules, r.word = "screenshot" ∨ r.times = none)
    (hcalm : ∀ r ∈ p.rules, ∀ b, r.behavior ≠ .breakDown b) (blocked : Bool) (opening : Timestamp)
    (page : List Nat) : (p.world blocked opening).Unposed page where
  answers made made' time time' c _ hc := by
    simp only [world, answer, pick_of_not_screenshot hc htimes, and_self]
  screenshots made time fullPage b := calm_world hcalm blocked opening _ _ _ b

/-- A browser that brings back no first image and takes its time with the second. -/
def unsteady : Script where
  rules := [⟨"screenshot", "*", some 1, 0, .fail (.driver "no image")⟩,
    ⟨"screenshot", "*", some 1, 700, .succeed⟩, ⟨"click", "css=#pay", none, 200, .runOut none 500⟩]
  texts := []
  echoes := []
  screenshot := [137, 80, 78, 71]

end Browser

namespace CaseRun

/-- Three steps of which the first has no image, the second a late one, and the last one that cannot be
written any more. -/
theorem screenshots_harmless_unsteady :
    let r := CaseRunner.ofSettings {} StopWords.usual.resolver "run" "https://x.test/"
    let w : World (List Nat) :=
      { Browser.unsteady.world false ⟨0, 0⟩ with stores := fun _ now _ => now < 1500 }
    let c : TestCase := { id := "pay", steps := ["Click css=#cart", "Dance", "Click css=#pay"] }
    let s : Session (List Nat) := { page := [] }
    w.Unposed s.page ∧ ¬TimesOut (r.capturing true) w c s ∧ ¬TimesOut (r.capturing false) w c s ∧
      (Ended.traceThen (run (r.capturing true) w c s) fun x _ =>
          x.steps.map fun y => (y.status, y.note, y.screenshot.isSome)) =
        [(.pass, none, false), (.pass, some .unrecognized, true), (.fail, none, false)] ∧
      Ended.Paired
        (fun t u => ∃ calls, t.requests = s.requests ++ calls ∧ u.requests = s.requests ++ unshot calls)
        CaseResult.Concurs (run (r.capturing true) w c s) (run (r.capturing false) w c s) ∧
      ∀ x t, run (r.capturing true) w c s = (.done x, t) →
        let q := trace (r.capturing true) w c s
        t.events = s.events ++ q.events r.evidence.captureNetwork ∧
          Request.Leads w q.steps.flatten s.page s.now t.page t.now ∧
          List.Forall₂ (fun qs y => Photographed w (shotPath r c.id y.index) qs y) q.steps x.steps := by
  intro r w c s
  have hw : w.Unposed s.page := by
    have hscript := Browser.Script.unposed_world (p := Browser.unsteady) (by simp [Browser.unsteady])
      (by simp [Browser.unsteady]) false ⟨0, 0⟩ []
    exact ⟨hscript.answers, hscript.screenshots⟩
  have htermination : ∀ on,
      Ended.traceThen (run (r.capturing on) w c s) (fun x _ => [x.termination]) = [.aborted] := by
    decide +kernel
  have hends : ∀ on, ¬TimesOut (r.capturing on) w c s := by
    rintro on ⟨x, t, hrun, hx⟩
    have haborted := htermination on
    rw [hrun, Ended.traceThen_done, hx] at haborted
    cases haborted
  exact ⟨hw, hends true, hends false, by decide +kernel,
    screenshots_harmless r c hw (hends true) (hends false)⟩

end CaseRun

end PlainSteps
