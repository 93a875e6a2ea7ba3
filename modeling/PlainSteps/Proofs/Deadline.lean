import PlainSteps.Proofs.CaseSteps
import PlainSteps.Proofs.ScriptedBrowser
import PlainSteps.Proofs.StepContext

/-!
# Cases under different deadlines

`CaseRun.steps_prefix`: of two runs of a case, the one with less time records a first part of the
steps of the other, namely the steps that end in its time; and if its time was enough, the two record
the same and end alike.

Both runs are compared with the one that nothing cuts short. Under a deadline each request, each
routine and each step does what it does without one, or it is cut and without the deadline would have
gone on until then at least (`Ended.CutAt`). So what a run records are the steps of the `timeline`
that end before its deadline (`runSteps_cut`).
-/

namespace PlainSteps

variable {σ α β : Type}

/-! ## Cuts -/

/-- An end under a deadline against the end without one: they are the same, or the first was cut and
the second is later than the deadline or never comes. -/
def Ended.CutAt (d : Nat) (x y : Ended α × Session σ) : Prop :=
  x = y ∧ y.2.now ≤ d ∧ y.1 ≠ .halted .stuck ∨
  x.1 = .halted .deadline ∧ (y.1 = .halted .stuck ∨ d ≤ y.2.now)

theorem Ended.CutAt.andThen {d : Nat} {x y : Ended α × Session σ}
    {f g : α → Session σ → Ended β × Session σ} (h : CutAt d x y)
    (hfg : ∀ a t, t.now ≤ d → CutAt d (f a t) (g a t)) (hg : ∀ a t, t.now ≤ (g a t).2.now) :
    CutAt d (Ended.andThen x f) (Ended.andThen y g) := by
  obtain ⟨y₁, t⟩ := y
  rcases h with ⟨rfl, hle, hstuck⟩ | ⟨hx, hy⟩
  · cases y₁ with
    | done a => exact hfg a t hle
    | halted h =>
      refine .inl ⟨rfl, hle, ?_⟩
      intro e
      injection e with e
      subst e
      exact hstuck rfl
  · right
    obtain ⟨x₁, u⟩ := x
    obtain rfl : x₁ = .halted .deadline := hx
    refine ⟨rfl, ?_⟩
    cases y₁ with
    | done a =>
      rcases hy with hy | hy
      · cases hy
      · exact .inr (Nat.le_trans hy (hg a t))
    | halted h =>
      rcases hy with hy | hy
      · injection hy with hy
        exact .inl (by simp [hy])
      · exact .inr hy

theorem Session.ask_cut (w : World σ) {d : Nat} (c : Call) (limit : Option Nat) {s : Session σ}
    (hs : s.now ≤ d) : Ended.CutAt d (s.ask w (some d) c limit) (s.ask w none c limit) := by
  simp only [ask]
  rcases waitFor limit (w.answer s.page s.now c).delay with _ | ⟨ms, ended⟩
  · exact .inr ⟨rfl, .inl rfl⟩
  · simp only
    by_cases hr : reaches w (some d) s.now (s.now + ms) = true
    · rw [if_pos hr, if_pos (reaches_none _ _ _)]
      refine .inl ⟨rfl, le_of_reaches (inTime_some.mpr hs) hr d rfl, ?_⟩
      cases ended
      · simp
      · intro e
        obtain ⟨b, hb, -⟩ := Outcome.ended_halted e
        cases hb
    · rw [if_neg hr, if_pos (reaches_none _ _ _)]
      exact .inr ⟨rfl, .inr (le_of_not_reaches hr)⟩

namespace Routine

theorem run_cut (w : World σ) {d : Nat} (r : Routine α) {s : Session σ} (hs : s.now ≤ d) :
    Ended.CutAt d (r.run w (some d) s) (r.run w none s) := by
  induction r generalizing s with
  | done a => exact .inl ⟨rfl, hs, by simp⟩
  | call c limit next ih =>
    rw [run_call, run_call]
    exact (s.ask_cut w c limit hs).andThen (fun reply t ht => ih reply ht)
      (fun reply t => run_now_le (next reply) t.inTime_none)
  | pause ms next ih =>
    simp only [run, Session.elapse]
    by_cases hr : Session.reaches w (some d) s.now (s.now + min Session.longest ms) = true
    · rw [if_pos hr, if_pos (Session.reaches_none _ _ _)]
      exact ih (Session.le_of_reaches (Session.inTime_some.mpr hs) hr d rfl)
    · rw [if_neg hr, if_pos (Session.reaches_none _ _ _)]
      have hle := run_now_le (w := w) next
        ({ s with now := s.now + min Session.longest ms } : Session σ).inTime_none
      exact .inr ⟨rfl, .inr (Nat.le_trans (Session.le_of_not_reaches hr) hle)⟩
  | save path bytes next ih =>
    simp only [run]
    split
    · exact ih true hs
    · exact ih false hs

end Routine

namespace CaseRun

/-! ## Steps without a deadline -/

theorem now_le_of_runStep (x : Step.Context) (w : World σ) (index : Nat) (description : String)
    (action : Action) (vars : Variables) (s : Session σ) :
    s.now ≤ (runStep x w none index description action vars s).2.now := by
  rw [runStep_eq]
  refine Ended.now_le_andThen (Routine.run_now_le _ s.inTime_none) fun p t => ?_
  exact Ended.now_le_andThen (Routine.run_now_le _ t.inTime_none) fun _ _ => Nat.le_refl _

theorem now_le_of_oneStep (r : CaseRunner) (w : World σ) (caseId raw : String) (index : Nat)
    (vars : Variables) (s : Session σ) :
    s.now ≤ (oneStep r w none caseId raw index vars s).2.now := by
  have hle := now_le_of_runStep (r.context caseId) w index (Sentence.normalize (vars.substitute raw))
    (Sentence.classify r.rules (vars.substitute raw)) vars
    (beginStep r w caseId index (Sentence.normalize (vars.substitute raw)) s)
  rw [beginStep_now] at hle
  exact Ended.now_le_andThen hle fun p t => by simp

theorem now_le_of_runSteps (r : CaseRunner) (w : World σ) (caseId : String) (raws : List String)
    (index : Nat) (vars : Variables) (s : Session σ) :
    s.now ≤ (runSteps r w none caseId raws index vars s).session.now := by
  induction raws generalizing index vars s with
  | nil => exact Nat.le_refl _
  | cons raw rest ih =>
    have hle := now_le_of_oneStep r w caseId raw index vars s
    rw [runSteps_cons]
    rcases hstep : oneStep r w none caseId raw index vars s with ⟨⟨result, vars'⟩ | h, t⟩
    · rw [hstep] at hle
      simp only
      split
      · exact hle
      · exact Nat.le_trans hle (ih (index + 1) vars' t)
    · rw [hstep] at hle
      exact hle

/-- The steps of a case that end when nothing cuts them short, each with the time at which it
ends. -/
def timeline (r : CaseRunner) (w : World σ) (caseId : String) :
    List String → Nat → Variables → Session σ → List (StepResult × Nat)
  | [], _, _, _ => []
  | raw :: rest, index, vars, s =>
    match oneStep r w none caseId raw index vars s with
    | (.halted _, _) => []
    | (.done (result, vars), t) =>
      (result, t.now) ::
        if result.isFail then [] else timeline r w caseId rest (index + 1) vars t

theorem now_le_of_mem_timeline {r : CaseRunner} {w : World σ} {caseId : String} {raws : List String}
    {index : Nat} {vars : Variables} {s : Session σ} {e : StepResult × Nat}
    (he : e ∈ timeline r w caseId raws index vars s) : s.now ≤ e.2 := by
  induction raws generalizing index vars s with
  | nil => cases he
  | cons raw rest ih =>
    have hle := now_le_of_oneStep r w caseId raw index vars s
    rw [timeline] at he
    rcases hstep : oneStep r w none caseId raw index vars s with ⟨⟨result, vars'⟩ | h, t⟩
    · rw [hstep] at he hle
      rcases List.mem_cons.mp he with rfl | he
      · exact hle
      · split at he
        · cases he
        · exact Nat.le_trans hle (ih he)
    · rw [hstep] at he
      cases he

theorem pairwise_timeline (r : CaseRunner) (w : World σ) (caseId : String) (raws : List String)
    (index : Nat) (vars : Variables) (s : Session σ) :
    (timeline r w caseId raws index vars s).Pairwise fun e f => e.2 ≤ f.2 := by
  induction raws generalizing index vars s with
  | nil => exact .nil
  | cons raw rest ih =>
    rw [timeline]
    rcases oneStep r w none caseId raw index vars s with ⟨⟨result, vars'⟩ | h, t⟩
    · refine List.pairwise_cons.mpr ⟨fun e he => ?_, ?_⟩
      · split at he
        · cases he
        · exact now_le_of_mem_timeline he
      · split
        · exact .nil
        · exact ih (index + 1) vars' t
    · exact .nil

/-! ## Steps under a deadline -/

theorem runStep_cut (x : Step.Context) (w : World σ) {d : Nat} (index : Nat) (description : String)
    (action : Action) (vars : Variables) {s : Session σ} (hs : s.now ≤ d) :
    Ended.CutAt d (runStep x w (some d) index description action vars s)
      (runStep x w none index description action vars s) := by
  rw [runStep_eq, runStep_eq]
  refine (Routine.run_cut w _ hs).andThen (fun p t ht => ?_) fun p t => ?_
  · refine (Routine.run_cut w _ ht).andThen (fun screenshot u hu => ?_) fun _ _ => Nat.le_refl _
    exact .inl ⟨rfl, hu, by simp⟩
  · exact Ended.now_le_andThen (Routine.run_now_le _ t.inTime_none) fun _ _ => Nat.le_refl _

theorem oneStep_cut (r : CaseRunner) (w : World σ) {d : Nat} (caseId raw : String) (index : Nat)
    (vars : Variables) {s : Session σ} (hs : s.now ≤ d) :
    Ended.CutAt d (oneStep r w (some d) caseId raw index vars s)
      (oneStep r w none caseId raw index vars s) := by
  have hbegin := runStep_cut (r.context caseId) w index (Sentence.normalize (vars.substitute raw))
    (Sentence.classify r.rules (vars.substitute raw)) vars
    (d := d) (s := beginStep r w caseId index (Sentence.normalize (vars.substitute raw)) s) hs
  refine hbegin.andThen (fun p t ht => ?_) fun p t => by simp
  exact .inl ⟨rfl, by simpa using ht, by simp [endStep]⟩

/-- The recorded steps that end before a time. -/
def endedBefore (d : Nat) (ends : List (StepResult × Nat)) : List StepResult :=
  (ends.filter (·.2 < d)).map (·.1)

theorem endedBefore_eq_nil {d : Nat} {ends : List (StepResult × Nat)} (h : ∀ e ∈ ends, d ≤ e.2) :
    endedBefore d ends = [] := by
  simpa [endedBefore] using h

theorem endedBefore_cons_of_lt {d : Nat} {e : StepResult × Nat} (ends : List (StepResult × Nat))
    (h : e.2 < d) : endedBefore d (e :: ends) = e.1 :: endedBefore d ends := by
  simp [endedBefore, h]

theorem endedBefore_prefix {d₁ d₂ : Nat} (h : d₁ ≤ d₂) {ends : List (StepResult × Nat)}
    (hends : ends.Pairwise fun e f => e.2 ≤ f.2) : endedBefore d₁ ends <+: endedBefore d₂ ends := by
  induction ends with
  | nil => exact List.prefix_refl _
  | cons e ends ih =>
    obtain ⟨hfirst, hrest⟩ := List.pairwise_cons.mp hends
    by_cases he : e.2 < d₁
    · rw [endedBefore_cons_of_lt ends he, endedBefore_cons_of_lt ends (Nat.lt_of_lt_of_le he h)]
      exact (List.prefix_cons_inj _).mpr (ih hrest)
    · have hnil : endedBefore d₁ (e :: ends) = [] := by
        refine endedBefore_eq_nil fun f hf => ?_
        have hle := Nat.le_of_not_lt he
        rcases List.mem_cons.mp hf with rfl | hf
        · exact hle
        · exact Nat.le_trans hle (hfirst f hf)
      rw [hnil]
      exact List.nil_prefix

/-- The steps of a case under a deadline against those without one. -/
def StepsCutAt (d : Nat) (x y : StepsRun σ) : Prop :=
  x = y ∧ y.session.now ≤ d ∧ y.ending ≠ .halted .stuck ∨
  x.ending = .halted .deadline ∧ (y.ending = .halted .stuck ∨ d ≤ y.session.now)

/-- Under a deadline at which no step ends, the steps that end before it are recorded, and all of
them are when nothing is cut. -/
theorem runSteps_cut (r : CaseRunner) (w : World σ) {d : Nat} (caseId : String) (raws : List String)
    (index : Nat) (vars : Variables) {s : Session σ} (hs : s.now ≤ d)
    (htie : ∀ e ∈ timeline r w caseId raws index vars s, e.2 ≠ d) :
    (runSteps r w (some d) caseId raws index vars s).steps =
        endedBefore d (timeline r w caseId raws index vars s) ∧
      StepsCutAt d (runSteps r w (some d) caseId raws index vars s)
        (runSteps r w none caseId raws index vars s) := by
  induction raws generalizing index vars s with
  | nil => exact ⟨rfl, .inl ⟨rfl, hs, by simp [runSteps_nil]⟩⟩
  | cons raw rest ih =>
    have hcut := oneStep_cut r w caseId raw index vars hs
    rw [runSteps_cons, runSteps_cons, timeline]
    rw [timeline] at htie
    generalize oneStep r w (some d) caseId raw index vars s = x at hcut ⊢
    generalize oneStep r w none caseId raw index vars s = y at hcut htie ⊢
    obtain ⟨x₁, u⟩ := x
    obtain ⟨⟨result, vars'⟩ | h, t⟩ := y
    · rcases hcut with ⟨heq, hle, -⟩ | ⟨hx, hy⟩
      · -- the step ends in time
        cases heq
        have hlt : u.now < d := Nat.lt_of_le_of_ne hle (htie _ List.mem_cons_self)
        simp only
        rw [endedBefore_cons_of_lt _ hlt]
        by_cases hfail : result.isFail = true
        · simp only [if_pos hfail]
          exact ⟨rfl, .inl ⟨rfl, hle, by simp⟩⟩
        · simp only [if_neg hfail] at htie ⊢
          obtain ⟨hsteps, hcut⟩ := ih (index + 1) vars' hle fun e he =>
            htie e (List.mem_cons_of_mem _ he)
          refine ⟨by rw [hsteps], ?_⟩
          rcases hcut with ⟨heq, hrest⟩ | hrest
          · exact .inl ⟨by rw [heq], hrest⟩
          · exact .inr hrest
      · -- the step is cut, and all that would follow comes too late
        obtain rfl : x₁ = .halted .deadline := hx
        have hle : d ≤ t.now := by simpa using hy
        refine ⟨?_, .inr ⟨rfl, .inr ?_⟩⟩
        · refine (endedBefore_eq_nil fun e he => ?_).symm
          rcases List.mem_cons.mp he with rfl | he
          · exact hle
          · split at he
            · cases he
            · exact Nat.le_trans hle (now_le_of_mem_timeline he)
        · simp only
          split
          · exact hle
          · exact Nat.le_trans hle (now_le_of_runSteps r w caseId rest (index + 1) vars' t)
    · refine ⟨?_, ?_⟩
      · rcases hcut with ⟨heq, -⟩ | ⟨hx, -⟩
        · cases heq
          rfl
        · obtain rfl : x₁ = .halted .deadline := hx
          rfl
      · rcases hcut with ⟨heq, hle, hstuck⟩ | ⟨hx, hy⟩
        · cases heq
          refine .inl ⟨rfl, hle, ?_⟩
          intro e
          injection e with e
          exact hstuck (by rw [e])
        · obtain rfl : x₁ = .halted .deadline := hx
          refine .inr ⟨rfl, hy.imp (fun e => ?_) id⟩
          injection e with e
          simp only [e]

theorem runSteps_eq_of_not_cut (r : CaseRunner) (w : World σ) {d : Nat} (caseId : String)
    (raws : List String) (index : Nat) (vars : Variables) {s : Session σ} (hs : s.now ≤ d)
    (h : (runSteps r w (some d) caseId raws index vars s).ending ≠ .halted .deadline) :
    runSteps r w (some d) caseId raws index vars s = runSteps r w none caseId raws index vars s := by
  induction raws generalizing index vars s with
  | nil => rfl
  | cons raw rest ih =>
    rcases oneStep_cut r w caseId raw index vars hs with ⟨heq, hle, -⟩ | ⟨hhalt, -⟩
    · rw [runSteps_cons] at h
      rw [runSteps_cons, runSteps_cons, ← heq]
      rw [← heq] at hle
      generalize oneStep r w (some d) caseId raw index vars s = x at h hle
      obtain ⟨⟨result, vars'⟩ | halt, t⟩ := x
      · by_cases hfail : result.isFail = true
        · simp only [if_pos hfail]
        · simp only [if_neg hfail] at h ⊢
          rw [ih (index + 1) vars' hle h]
      · rfl
    · exact absurd (ending_cons_of_halted hhalt) h

end CaseRun

/-! ## Another deadline for the same case -/

/-- The same runner with so many seconds for each case. -/
def CaseRunner.within (r : CaseRunner) (seconds : UInt64) : CaseRunner :=
  { r with execution := { r.execution with caseTimeoutSecs := seconds } }

namespace CaseRun

theorem deadline_within_le (r : CaseRunner) {T₁ T₂ : UInt64} (h : T₁ ≤ T₂) (s : Session σ) :
    deadline (r.within T₁) s ≤ deadline (r.within T₂) s := by
  have hle : T₁.toNat ≤ T₂.toNat := UInt64.le_iff_toNat_le.mp h
  simp only [deadline, CaseRunner.within, ExecutionSettings.caseTimeout]
  omega

theorem oneStep_within (r : CaseRunner) (T : UInt64) (w : World σ) (d : Option Nat)
    (caseId raw : String) (index : Nat) (vars : Variables) (s : Session σ) :
    oneStep (r.within T) w d caseId raw index vars s = oneStep r w d caseId raw index vars s := by
  have hperform := Step.perform_congr (x := (r.within T).context caseId) (y := r.context caseId)
    ⟨rfl, rfl, rfl, rfl, rfl⟩
  have hclose := Step.close_congr (x := (r.within T).context caseId) (y := r.context caseId) rfl rfl
  simp only [oneStep, runStep_eq, hperform, hclose]
  rfl

theorem runSteps_within (r : CaseRunner) (T : UInt64) (w : World σ) (d : Option Nat)
    (caseId : String) (raws : List String) (index : Nat) (vars : Variables) (s : Session σ) :
    runSteps (r.within T) w d caseId raws index vars s =
      runSteps r w d caseId raws index vars s := by
  induction raws generalizing index vars s with
  | nil => rfl
  | cons raw rest ih => simp only [runSteps_cons, oneStep_within, ih]

/-- The steps of a case that starts now and that end when nothing cuts them short, each with the
time at which it ends. -/
def ends (r : CaseRunner) (w : World σ) (c : TestCase) (s : Session σ) : List (StepResult × Nat) :=
  timeline r w c.id c.steps 0 .empty (s.capture r.evidence.captureNetwork)

/-- All the steps of a case that starts now, when nothing cuts them short. -/
def uncut (r : CaseRunner) (w : World σ) (c : TestCase) (s : Session σ) : StepsRun σ :=
  runSteps r w none c.id c.steps 0 .empty (s.capture r.evidence.captureNetwork)

theorem now_le_uncut (r : CaseRunner) (w : World σ) (c : TestCase) (s : Session σ) :
    s.now ≤ (uncut r w c s).session.now := by
  have h := now_le_of_runSteps r w c.id c.steps 0 .empty (s.capture r.evidence.captureNetwork)
  rwa [Session.capture_now] at h

theorem now_le_of_mem_ends {r : CaseRunner} {w : World σ} {c : TestCase} {s : Session σ}
    {e : StepResult × Nat} (he : e ∈ ends r w c s) : s.now ≤ e.2 := by
  have h := now_le_of_mem_timeline he
  rwa [Session.capture_now] at h

theorem carried_eq_uncut {r : CaseRunner} {w : World σ} {c : TestCase} {s : Session σ}
    (h : (carried r w c s).ending ≠ .halted .deadline) : carried r w c s = uncut r w c s := by
  unfold carried at h ⊢
  split at h
  · rename_i hstart
    rw [if_pos hstart]
    exact runSteps_eq_of_not_cut r w c.id c.steps 0 .empty (now_le_deadline r s) h
  · exact absurd rfl h

/-- A case records the steps that end in its time. -/
theorem carried_cut (r : CaseRunner) (w : World σ) (c : TestCase) (s : Session σ) {T : UInt64}
    (htie : ∀ e ∈ ends r w c s, e.2 ≠ deadline (r.within T) s) :
    (carried (r.within T) w c s).steps = endedBefore (deadline (r.within T) s) (ends r w c s) ∧
      StepsCutAt (deadline (r.within T) s) (carried (r.within T) w c s) (uncut r w c s) := by
  unfold carried
  split
  · rw [runSteps_within]
    exact runSteps_cut r w c.id c.steps 0 .empty (now_le_deadline (r.within T) s) htie
  · rename_i hover
    have hle : deadline (r.within T) s ≤ s.now := by
      simp only [Bool.or_eq_true, decide_eq_true_eq, not_or] at hover
      exact Nat.le_of_not_lt hover.1
    refine ⟨?_, .inr ⟨rfl, .inr (Nat.le_trans hle (now_le_uncut r w c s))⟩⟩
    exact (endedBefore_eq_nil fun e he => Nat.le_trans hle (now_le_of_mem_ends he)).symm

theorem carried_eq_of_not_cut (r : CaseRunner) (w : World σ) (c : TestCase) (s : Session σ)
    {T₁ T₂ : UInt64} (hT : T₁ ≤ T₂)
    (htie : ∀ e ∈ ends r w c s,
      e.2 ≠ deadline (r.within T₁) s ∧ e.2 ≠ deadline (r.within T₂) s)
    (h : (carried (r.within T₁) w c s).ending ≠ .halted .deadline) :
    carried (r.within T₂) w c s = carried (r.within T₁) w c s := by
  obtain ⟨-, hcut₁⟩ := carried_cut r w c s fun e he => (htie e he).1
  obtain ⟨-, hcut₂⟩ := carried_cut r w c s fun e he => (htie e he).2
  rcases Nat.eq_or_lt_of_le (deadline_within_le r hT s) with heq | hlt
  · simp only [carried, runSteps_within, heq]
    rfl
  · rcases hcut₁ with ⟨heq₁, hle, hstuck⟩ | ⟨hhalt, -⟩
    · rcases hcut₂ with ⟨heq₂, -⟩ | ⟨-, hlate⟩
      · rw [heq₁, heq₂]
      · rcases hlate with hlate | hlate
        · exact absurd hlate hstuck
        · omega
    · exact absurd hhalt h

/-- Of two runs of a case, the one with less time records the steps that end in its time, which are
a first part of those that the other records; and when its time was enough the two record the same
and end alike. The deadlines may fall anywhere but at the very end of a step. -/
theorem steps_prefix (r : CaseRunner) (w : World σ) (c : TestCase) (s : Session σ)
    {T₁ T₂ : UInt64} (hT : T₁ ≤ T₂)
    (htie : ∀ e ∈ ends r w c s,
      e.2 ≠ deadline (r.within T₁) s ∧ e.2 ≠ deadline (r.within T₂) s)
    {y : CaseResult} {t : Session σ} (hy : run (r.within T₂) w c s = (.done y, t)) :
    ∃ x u, run (r.within T₁) w c s = (.done x, u) ∧
      x.steps <+: y.steps ∧
      x.steps = endedBefore (deadline (r.within T₁) s) (ends r w c s) ∧
      y.steps = endedBefore (deadline (r.within T₂) s) (ends r w c s) ∧
      (x.termination ≠ .timedOut →
        x.steps = y.steps ∧ x.termination = y.termination ∧ x.status = y.status) := by
  obtain ⟨hsteps₁, -⟩ := carried_cut r w c s fun e he => (htie e he).1
  obtain ⟨hsteps₂, -⟩ := carried_cut r w c s fun e he => (htie e he).2
  have hprefix := endedBefore_prefix (deadline_within_le r hT s)
    (pairwise_timeline r w c.id c.steps 0 .empty (s.capture r.evidence.captureNetwork))
  by_cases hend : (carried (r.within T₁) w c s).ending = .halted .deadline
  · refine ⟨_, _, by rw [run_eq, hend]; rfl, ?_, hsteps₁, (run_steps hy).trans hsteps₂, ?_⟩
    · rw [run_steps hy, hsteps₂]
      exact (show (carried (r.within T₁) w c s).steps = _ from hsteps₁) ▸ hprefix
    · intro h
      exact absurd rfl h
  · have heq := carried_eq_of_not_cut r w c s hT htie hend
    have hrun : run (r.within T₁) w c s = run (r.within T₂) w c s := by
      rw [run_eq, run_eq, heq]
      split
      · rfl
      · rename_i h
        exact absurd h hend
      · rfl
    exact ⟨y, t, hrun.trans hy, List.prefix_refl _, (run_steps (hrun.trans hy)).trans hsteps₁,
      (run_steps hy).trans hsteps₂, fun _ => ⟨rfl, rfl, rfl⟩⟩

/-- A browser on which every click takes a while. -/
def slow : Browser.Script where
  rules := [⟨"click", "*", none, 400, .succeed⟩]
  texts := []
  echoes := []
  screenshot := []

/-- Three clicks of which the first ends within one second and the second within two. -/
theorem steps_prefix_slow :
    let r : CaseRunner := { CaseRunner.ofSettings {} StopWords.usual.resolver "run" "https://x.test/"
      with evidence := { captureScreenshots := false } }
    let w := slow.world false ⟨0, 0⟩
    let c : TestCase :=
      { id := "clicks", steps := ["Click \"Buy\"", "Click \"Pay\"", "Click \"Done\""] }
    let s : Session (List Nat) := { page := [] }
    (1 : UInt64) ≤ 2 ∧
      (∀ e ∈ ends r w c s, e.2 ≠ deadline (r.within 1) s ∧ e.2 ≠ deadline (r.within 2) s) ∧
      ∃ y t, run (r.within 2) w c s = (.done y, t) ∧
        ∃ x u, run (r.within 1) w c s = (.done x, u) ∧
          x.steps <+: y.steps ∧
          x.steps = endedBefore (deadline (r.within 1) s) (ends r w c s) ∧
          y.steps = endedBefore (deadline (r.within 2) s) (ends r w c s) ∧
          (x.termination ≠ .timedOut →
            x.steps = y.steps ∧ x.termination = y.termination ∧ x.status = y.status) := by
  intro r w c s
  have hT : (1 : UInt64) ≤ 2 := by decide
  have htimes : (ends r w c s).map (·.2) = [900, 1800, 2700] := by decide +kernel
  have htie : ∀ e ∈ ends r w c s, e.2 ≠ deadline (r.within 1) s ∧ e.2 ≠ deadline (r.within 2) s := by
    intro e he
    have hmem := List.mem_map_of_mem (f := (·.2)) he
    rw [htimes] at hmem
    have h₁ : deadline (r.within 1) s = 1000 := by decide
    have h₂ : deadline (r.within 2) s = 2000 := by decide
    simp only [List.mem_cons, List.not_mem_nil, or_false] at hmem
    omega
  have hw : w.Calm := Browser.Script.calm_world (by simp [slow]) _ _
  obtain ⟨y, t, hy⟩ := run_done_of_calm (r.within 2) hw c s
  exact ⟨hT, htie, y, t, hy, steps_prefix r w c s hT htie hy⟩

end CaseRun

end PlainSteps
