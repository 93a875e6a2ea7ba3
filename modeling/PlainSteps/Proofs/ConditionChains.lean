import PlainSteps.Proofs.LocatorsInTurn

/-!
# Conditions within conditions

An action may stand under a chain of conditions (`Action.under`), each with a target of its own. The
conditions are probed one after the other, and the first that does not hold ends the step.

* `Step.probing` : the probes of a chain; `Step.perform_under` : what an action under a chain does is to
  probe the chain, and then what the action does alone.
* `Probed` : the attempts of a chain. A condition without a locator does not hold, and neither does one
  whose attempt does anything but succeed.
* `Step.probing_run` : by induction on the chain, with the cases of the outermost condition.
* `CaseRun.runStep_under` : what is recorded of an action under a chain.
-/

namespace PlainSteps

variable {σ : Type}

/-- An action under a chain of conditions, the outermost first. -/
def Action.under (action : Action) : List (Target × Condition) → Action
  | [] => action
  | (target, condition) :: chain => .conditional target condition (action.under chain)

namespace Step

open Routine

/-- Probes the conditions of a chain, up to the first that does not hold. -/
def probing (x : Context) : List (Target × Condition) → Routine Bool
  | [] => done true
  | (target, condition) :: chain =>
    (probe x target condition.state).bind fun holds => if holds then probing x chain else done false

theorem perform_under (x : Context) (action : Action) (chain : List (Target × Condition))
    (vars : Variables) :
    perform x (action.under chain) vars = (probing x chain).bind fun holds =>
      if holds then perform x action vars else done (.skipped .conditionNotMet, vars) := by
  induction chain with
  | nil => rfl
  | cons c chain ih =>
    rw [Action.under, perform, probing, bind_assoc]
    congr 1
    funext holds
    cases holds with
    | true => exact ih
    | false => rfl

/-! ## Probes -/

theorem probe_of_none {x : Context} {target : Target} (state : ElementState)
    (h : firstLocator? x .conditional target = none) : probe x target state = done false := by
  rw [probe, h]

theorem probe_of_some {x : Context} {target : Target} (state : ElementState) {l : String}
    (h : firstLocator? x .conditional target = some l) :
    probe x target state = (ask (.waitFor l state x.execution.candidateTimeout)
      (some (x.execution.candidateTimeout + grace))).bind fun
        | .ok _ => done true
        | .failed _ | .late => done false := by
  rw [probe, h]
  exact bounded_bind _ _ _ _

end Step

/-- The attempt waits for the first locator of the target of a condition to be in the state that the
condition looks for. -/
def Attempt.Probes (x : Step.Context) (c : Target × Condition) (q : Attempt σ) : Prop :=
  ∃ l, Step.firstLocator? x .conditional c.1 = some l ∧
    q.call = .waitFor l c.2.state x.execution.candidateTimeout

/-- The attempts of a chain of conditions, and whether all of them hold. -/
inductive Probed (x : Step.Context) : List (Target × Condition) → List (Attempt σ) → Bool → Prop
  | nil : Probed x [] [] true
  | unmatched {c : Target × Condition} {chain : List (Target × Condition)}
      (h : Step.firstLocator? x .conditional c.1 = none) : Probed x (c :: chain) [] false
  | failed {c : Target × Condition} {chain : List (Target × Condition)} {q : Attempt σ}
      (hq : q.Probes x c) (hreply : ∀ v, q.reply ≠ .ok v) : Probed x (c :: chain) [q] false
  | held {c : Target × Condition} {chain : List (Target × Condition)} {q : Attempt σ}
      {qs : List (Attempt σ)} {holds : Bool} {v : Value} (hq : q.Probes x c)
      (hreply : q.reply = .ok v) (h : Probed x chain qs holds) :
      Probed x (c :: chain) (q :: qs) holds

namespace Step

open Routine

/-- The conditions of a chain are probed in order, up to the first that does not hold. -/
theorem probing_run (x : Context) {w : World σ} (hw : w.Calm) (chain : List (Target × Condition))
    (s : Session σ) :
    ∃ holds t, (probing x chain).run w none s = (.done holds, t) ∧
      Series w ((probing x chain).attempted w s) s t ∧
      Probed x chain ((probing x chain).attempted w s) holds := by
  induction chain generalizing s with
  | nil => exact ⟨true, s, rfl, .nil s, .nil⟩
  | cons c chain ih =>
    rw [probing]
    rcases hl : firstLocator? x .conditional c.1 with _ | l
    · rw [probe_of_none _ hl]
      exact ⟨false, s, rfl, .nil s, .unmatched hl⟩
    · obtain ⟨q, t, hfirst, hcall, hseries, hrun⟩ :=
        ask_run hw (c := .waitFor l c.2.state x.execution.candidateTimeout) rfl s
      have hq : q.Probes x c := ⟨l, hl, hcall⟩
      rw [probe_of_some _ hl, bind_assoc, attempted_bind, run_bind, hfirst, hrun,
        Ended.traceThen_done, Ended.andThen_done]
      -- The condition holds only if its attempt succeeds; then the others follow.
      rcases hreply : q.reply with v | e | _
      · obtain ⟨holds, u, hrun', hseries', hprobed⟩ := ih t
        exact ⟨holds, u, hrun', hseries.append hseries', .held hq hreply hprobed⟩
      · exact ⟨false, t, rfl, hseries, .failed hq (by simp [hreply])⟩
      · exact ⟨false, t, rfl, hseries, .failed hq (by simp [hreply])⟩

end Step

namespace CaseRun

/-- A chain of conditions around an action is probed from the outside, each condition with one attempt
at most. If one of them does not hold, whatever the reason, nothing else is asked of the page, the
variables stay as they are, and the step passes with a note. If all hold, the step is what the action
alone is from then on, begun as much earlier as the probes took. -/
theorem runStep_under (action : Action) (chain : List (Target × Condition)) (x : Step.Context)
    {w : World σ} (hw : w.Calm) (vars : Variables) (s : Session σ) :
    ∃ holds t, (Step.probing x chain).run w none s = (.done holds, t) ∧
      let qs := (Step.probing x chain).attempted w s
      Series w qs s t ∧ Probed x chain qs holds ∧
      (holds = false →
        (Step.perform x (action.under chain) vars).run w none s =
          (.done (.skipped .conditionNotMet, vars), t) ∧
        ∀ d index description result vars' u,
          runStep x w d index description (action.under chain) vars s =
            (.done (result, vars'), u) →
          result.status = .pass ∧ result.note = some .conditionNotMet ∧ result.error = none ∧
          vars' = vars ∧ ∃ shots, u.events = s.events ++ qs.map (·.event) ++ shots ∧
            ∀ e ∈ shots, ∃ time, e = .call time (.screenshot true)) ∧
      (holds = true → ∀ index description,
        runStep x w none index description (action.under chain) vars s =
          Ended.andThen (runStep x w none index description action vars t) fun p u =>
            (.done ({ p.1 with
              startedAt := s.moment w
              durationMs := (t.now - s.now) + p.1.durationMs }, p.2), u)) := by
  obtain ⟨holds, t, hrun, hseries, hprobed⟩ := Step.probing_run x hw chain s
  have hperform : (Step.perform x (action.under chain) vars).run w none s =
      (if holds then Step.perform x action vars
        else .done (.skipped .conditionNotMet, vars)).run w none t := by
    rw [Step.perform_under, Routine.run_bind, hrun, Ended.andThen_done]
  refine ⟨holds, t, hrun, hseries, hprobed, ?_, ?_⟩
  · rintro rfl
    refine ⟨hperform, ?_⟩
    intro d index description result vars' u hstep
    obtain ⟨verdict, t', hrun', hstatus, herror, hnote, shots, hshots, hall⟩ :=
      runStep_eq_done hstep
    rw [hperform] at hrun'
    cases hrun'
    exact ⟨hstatus, hnote, herror, rfl, shots, by rw [hshots, hseries.events], hall⟩
  · rintro rfl index description
    have hbefore : s.now ≤ t.now := by
      have h := Routine.run_now_le (w := w) (Step.probing x chain) (Session.inTime_none s)
      rwa [hrun] at h
    have hafter : t.now ≤ ((Step.perform x action vars).run w none t).2.now :=
      Routine.run_now_le _ (Session.inTime_none t)
    rw [runStep_eq, runStep_eq, hperform]
    simp only [if_true]
    generalize (Step.perform x action vars).run w none t = r at hafter
    obtain ⟨⟨verdict, vars'⟩ | h, t'⟩ := r
    · have helapsed : t'.now - s.now = (t.now - s.now) + (t'.now - t.now) := by
        simp only at hafter
        omega
      simp only [Ended.andThen_done, helapsed]
      rcases (Step.close x index).run w none t' with ⟨shot | h, u⟩
      · cases verdict <;> rfl
      · rfl
    · rfl

/-- A page that breaks off as soon as the second condition is probed. -/
def breakingOff : Browser.Script where
  rules := [⟨"wait_for", "text=Banner", none, 0, .fail .disconnected⟩]
  texts := []
  echoes := []
  screenshot := []

/-- The first condition holds and the second breaks the browser: the step passes, and what stands under
the third is not clicked. -/
theorem runStep_under_breakingOff :
    let settings : Settings := {}
    let x : Step.Context := ⟨fun hint _ => ["text=" ++ hint], settings.execution,
      "https://x.test/", none⟩
    let w := breakingOff.world false ⟨0, 0⟩
    let chain : List (Target × Condition) := [(.implied "Menu", .present),
      (.implied "Banner", .visible), (.implied "Dialog", .present)]
    let action := (Action.click (.implied "Save")).under chain
    ∃ result u, runStep x w none 0 "" action .empty { page := [] } =
        (.done (result, .empty), u) ∧
      result.status = .pass ∧ result.note = some .conditionNotMet ∧
      u.events = [.call 0 (.waitFor "text=Menu" .attached 2000),
        .call 0 (.waitFor "text=Banner" .visible 2000)] := by
  intro settings x w chain action
  have hcalm : w.Calm := Browser.Script.calm_world (by simp [breakingOff]) _ _
  obtain ⟨holds, t, hrun, -, -, hskipped, -⟩ :=
    runStep_under (.click (.implied "Save")) chain x hcalm .empty { page := [] }
  have hend : (match ((Step.probing x chain).run w none { page := [] }).1 with
      | .done holds => holds
      | .halted _ => true) = false := by decide +kernel
  rw [hrun] at hend
  obtain ⟨hperform, hrecorded⟩ := hskipped hend
  obtain ⟨result, u, hstep⟩ := runStep_recorded rfl hperform 0 ""
  obtain ⟨hstatus, hnote, -⟩ := hrecorded none 0 "" result _ u hstep
  refine ⟨result, u, hstep, hstatus, hnote, ?_⟩
  have hevents : (runStep x w none 0 "" action .empty { page := [] }).2.events =
      [.call 0 (.waitFor "text=Menu" .attached 2000),
        .call 0 (.waitFor "text=Banner" .visible 2000)] := by decide +kernel
  rwa [hstep] at hevents

end CaseRun

end PlainSteps
