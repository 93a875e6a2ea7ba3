import Mathlib.Algebra.GroupWithZero.Nat
import Mathlib.Data.List.Forall2
import PlainSteps.Proofs.CaseVerdict
import PlainSteps.Proofs.RunPhases

/-!
# The accounts of a run

`Run.execute_accounted`: the counts of a run add up at every level and say how its cases ended
(`RunReport.Accounted`), whatever the browser does, as long as the run comes to an end.

The counts of steps, of cases and of the run are worked out in three places. What one case adds to the
books is said once (`CaseResult.Balanced`) and read off its soundness, which needs no calm browser once
the case has a result (`CaseRun.sound_of_run`). The cases of a run balance one by one
(`Run.execute_ledger`), and the sums over a list of such cases follow by induction on the list.
-/

namespace PlainSteps

variable {σ : Type}

/-! ## One case -/

/-- A case that has any time at all has a sound result, if it has one. -/
theorem CaseRun.sound_of_run {r : CaseRunner} {w : World σ} {c : TestCase} {s t : Session σ}
    {x : CaseResult} (htime : 0 < r.execution.caseTimeoutSecs)
    (h : run r w c s = (.done x, t)) : x.Sound c := by
  have hrecorded := runSteps_recorded r w c.id c.steps 0 .empty (inTime_start r s)
  rw [← carried_of_pos htime w c s] at hrecorded
  obtain ⟨hindices, hsettled, haccounts⟩ := hrecorded
  rw [← List.range_eq_range'] at hindices
  rw [run_eq] at h
  split at h
  · rename_i termination hending
    rw [hending] at haccounts
    cases h
    exact CaseResult.sound_ofSteps hindices hsettled haccounts.2 (by simpa using haccounts.1)
  · rename_i hending
    rw [hending] at haccounts
    cases h
    exact CaseResult.sound_ofSteps hindices hsettled haccounts (by simp)
  · cases h

namespace CaseResult

/-- How the counts of a case go together, and what they say about its end. -/
structure Balanced (c : TestCase) (x : CaseResult) : Prop where
  declared : x.summary.total = c.steps.length
  recorded : x.summary.passed + x.summary.failed = x.steps.length
  recorded_le : x.steps.length ≤ c.steps.length
  failed : x.summary.failed = if x.termination = .aborted then 1 else 0
  isPass_iff : x.isPass = true ↔ x.termination = .completed
  all_passed : x.termination = .completed → x.summary.passed = c.steps.length

variable {c : TestCase} {x : CaseResult}

theorem Sound.failed_eq (h : x.Sound c) :
    x.summary.failed = if x.termination = .aborted then 1 else 0 := by
  have hnone : x.steps.dropLast.countP (·.status == .fail) = 0 := by
    rw [List.countP_eq_zero]
    intro y hy
    simp [h.pass_of_not_last y hy]
  rw [h.failed]
  rcases hlast : x.steps.getLast? with _ | last
  · have hempty : x.steps = [] := List.getLast?_eq_none_iff.mp hlast
    have haborted : x.termination ≠ .aborted := by
      intro ha
      obtain ⟨y, hy, -⟩ := h.aborted_iff.mp ha
      rw [hlast] at hy
      cases hy
    rw [hempty, if_neg haborted]
    rfl
  · have hsplit : x.steps = x.steps.dropLast ++ [last] :=
      (List.dropLast_append_getLast? last hlast).symm
    have haborted : x.termination = .aborted ↔ last.status = .fail := by
      rw [h.aborted_iff, hlast]
      simp
    rw [hsplit, List.countP_append, hnone, Nat.zero_add]
    by_cases hfail : last.status = .fail
    · rw [if_pos (haborted.mpr hfail)]
      simp [hfail]
    · rw [if_neg fun ha => hfail (haborted.mp ha)]
      simp [hfail]

theorem Sound.recorded_eq (h : x.Sound c) :
    x.summary.passed + x.summary.failed = x.steps.length := by
  have hsplit := List.length_eq_countP_add_countP (l := x.steps) (·.status == StepStatus.pass)
  have hfail : x.steps.countP (fun y => decide ¬(y.status == StepStatus.pass) = true) =
      x.steps.countP (·.status == .fail) := by
    refine List.countP_congr fun y hy => ?_
    rcases (h.settled y hy).judged with hpass | hfail
    · simp [hpass]
    · simp [hfail]
  rw [h.passed, h.failed, hsplit, hfail]

theorem Sound.balanced (h : x.Sound c) : x.Balanced c where
  declared := h.total
  recorded := h.recorded_eq
  recorded_le := h.length_le
  failed := h.failed_eq
  isPass_iff := by
    rw [isPass, beq_iff_eq]
    exact h.pass_iff
  all_passed := by
    intro hcompleted
    have hfailed := h.failed_eq
    have hrecorded := h.recorded_eq
    have hlength := (h.completed_iff.mp hcompleted).1
    rw [hcompleted, if_neg (by simp)] at hfailed
    omega

end CaseResult

/-! ## Sums over the cases -/

namespace CaseSummary

theorem sumOver_cons (count : CaseSummary → Nat) (x : CaseResult)
    (rest : List CaseResult) :
    sumOver count (x :: rest) = count x.summary + sumOver count rest := rfl

variable {finished : List TestCase} {results : List CaseResult}

theorem sumOver_total (h : List.Forall₂ CaseResult.Balanced finished results) :
    sumOver (·.total) results = (finished.map (·.steps.length)).sum := by
  induction h with
  | nil => rfl
  | cons hx _ ih => rw [sumOver_cons, ih, hx.declared, List.map_cons, List.sum_cons]

theorem sumOver_failed (h : List.Forall₂ CaseResult.Balanced finished results) :
    sumOver (·.failed) results = results.countP (·.termination == .aborted) := by
  induction h with
  | nil => rfl
  | @cons c x _ _ hx _ ih =>
    rw [sumOver_cons, ih, hx.failed, List.countP_cons]
    by_cases haborted : x.termination = .aborted
    · simp [haborted, Nat.add_comm]
    · simp [haborted]

theorem sumOver_recorded (h : List.Forall₂ CaseResult.Balanced finished results) :
    sumOver (·.passed) results + sumOver (·.failed) results =
      (results.map (·.steps.length)).sum := by
  induction h with
  | nil => rfl
  | cons hx _ ih =>
    have hrecorded := hx.recorded
    rw [sumOver_cons, sumOver_cons, List.map_cons, List.sum_cons, ← ih]
    omega

theorem recorded_le_declared (h : List.Forall₂ CaseResult.Balanced finished results) :
    (results.map (·.steps.length)).sum ≤ (finished.map (·.steps.length)).sum := by
  induction h with
  | nil => exact Nat.le_refl 0
  | cons hx _ ih =>
    have hle := hx.recorded_le
    rw [List.map_cons, List.sum_cons, List.map_cons, List.sum_cons]
    omega

theorem countP_isPass (h : List.Forall₂ CaseResult.Balanced finished results) :
    results.countP (·.isPass) = results.countP (·.termination == .completed) := by
  induction h with
  | nil => rfl
  | @cons c x _ _ hx _ ih =>
    have hpass : x.isPass = (x.termination == .completed) := by
      rw [Bool.eq_iff_iff, beq_iff_eq]
      exact hx.isPass_iff
    rw [List.countP_cons, List.countP_cons, ih, hpass]

theorem sumOver_passed_of_all (h : List.Forall₂ CaseResult.Balanced finished results)
    (hall : ∀ x ∈ results, x.isPass = true) :
    sumOver (·.passed) results = (finished.map (·.steps.length)).sum := by
  induction h with
  | nil => rfl
  | cons hx _ ih =>
    obtain ⟨hpass, hrest⟩ := List.forall_mem_cons.mp hall
    rw [sumOver_cons, hx.all_passed (hx.isPass_iff.mp hpass), ih hrest, List.map_cons,
      List.sum_cons]

end CaseSummary

/-! ## A run -/

/-- The counts of a run agree with each other, with its results and with the cases it was given. -/
structure RunReport.Accounted (cases : List TestCase) (x : RunReport) : Prop where
  total_cases : x.summary.totalCases = x.cases.length
  judged_cases : x.summary.passedCases + x.summary.failedCases = x.summary.totalCases
  passed_cases : x.summary.passedCases = x.cases.countP (·.termination == .completed)
  failed_steps : x.summary.failedSteps = x.cases.countP (·.termination == .aborted)
  recorded_steps :
    x.summary.passedSteps + x.summary.failedSteps = (x.cases.map (·.steps.length)).sum
  recorded_le : x.summary.passedSteps + x.summary.failedSteps ≤ x.summary.totalSteps
  /-- The cases reported are the first ones, and their steps are those asked for. -/
  total_steps : x.cases.map (·.caseId) = (cases.take x.cases.length).map (·.id) ∧
    x.summary.totalSteps = ((cases.take x.cases.length).map (·.steps.length)).sum
  success_iff : x.isSuccess = true ↔ x.error = none ∧ x.summary.failedCases = 0
  /-- A success went through all the cases and all their steps. -/
  success : x.isSuccess = true → x.cases.map (·.caseId) = cases.map (·.id) ∧
    x.summary.passedSteps = x.summary.totalSteps ∧
      x.summary.totalSteps = (cases.map (·.steps.length)).sum

namespace Run

variable {r : Run} {w : World σ} {cases : List TestCase} {s t : Session σ} {report : RunReport}

theorem InTurn.balanced {x : CaseRunner} {results : List CaseResult}
    (htime : 0 < x.execution.caseTimeoutSecs) (h : InTurn x w cases results s t) :
    List.Forall₂ CaseResult.Balanced cases results := by
  induction h with
  | nil s => exact .nil
  | cons hrun _ ih => exact .cons (CaseRun.sound_of_run htime hrun).balanced ih

/-- The first cases of a run have balanced results with their identifiers, and without an error all of
them do. -/
structure Ledger (cases : List TestCase) (report : RunReport) (finished : List TestCase) :
    Prop where
  first : finished <+: cases
  ids : report.cases.map (·.caseId) = finished.map (·.id)
  balanced : List.Forall₂ CaseResult.Balanced finished report.cases
  all : report.error = none → finished = cases
  summary : ∃ ms, report.summary = .ofCases report.cases ms

theorem execute_ledger (htime : 0 < r.settings.execution.caseTimeoutSecs)
    (h : execute r w cases s = (.done report, t)) : ∃ finished, Ledger cases report finished := by
  rcases execute_done h with ⟨e, -, rfl⟩ | ⟨u, results, error, v, reply, -, hinside, -, rfl⟩
  · exact ⟨[], List.nil_prefix, rfl, .nil, fun herror => (by cases herror), _, rfl⟩
  · rcases inside_cases hinside with ⟨rfl, e, rfl, -⟩ | ⟨u', -, hwent⟩
    · exact ⟨[], List.nil_prefix, rfl, .nil, fun herror => (by cases herror), _, rfl⟩
    · cases hwent with
      | all hturn =>
        exact ⟨cases, List.prefix_refl _, hturn.ids, hturn.balanced htime, fun _ => rfl, _, rfl⟩
      | @broken finished rest c _ _ _ _ hcases hturn hc =>
        have hfirst : finished <+: cases := hcases ▸ List.prefix_append _ _
        exact ⟨finished, hfirst, hturn.ids, hturn.balanced htime, fun herror => (by cases herror),
          _, rfl⟩

theorem Ledger.accounted {finished : List TestCase} (h : Ledger cases report finished) :
    report.Accounted cases := by
  obtain ⟨hfirst, hids, hbalanced, hall, ms, hsummary⟩ := h
  have hlength : finished.length = report.cases.length := hbalanced.length_eq
  have htake : cases.take report.cases.length = finished := by
    rw [← hlength]
    exact (List.prefix_iff_eq_take.mp hfirst).symm
  have hpass_le : report.cases.countP (·.isPass) ≤ report.cases.length := List.countP_le_length
  have hrecorded := CaseSummary.sumOver_recorded hbalanced
  have htotal := CaseSummary.sumOver_total hbalanced
  have hsuccess : report.isSuccess = true ↔
      report.error = none ∧ ∀ x ∈ report.cases, x.isPass = true := by
    rw [RunReport.isSuccess, Bool.and_eq_true, Option.isNone_iff_eq_none, List.all_eq_true]
  refine
    { total_cases := by rw [hsummary]; rfl
      judged_cases := ?_
      passed_cases := ?_
      failed_steps := ?_
      recorded_steps := ?_
      recorded_le := ?_
      total_steps := ?_
      success_iff := ?_
      success := ?_ }
  · simp only [hsummary, RunSummary.ofCases]
    omega
  · rw [hsummary]
    exact CaseSummary.countP_isPass hbalanced
  · rw [hsummary]
    exact CaseSummary.sumOver_failed hbalanced
  · rw [hsummary]
    exact hrecorded
  · simp only [hsummary, RunSummary.ofCases, hrecorded, htotal]
    exact CaseSummary.recorded_le_declared hbalanced
  · rw [htake, hsummary]
    exact ⟨hids, htotal⟩
  · -- no case failed when as many passed as there are
    have hnone : report.summary.failedCases = 0 ↔ ∀ x ∈ report.cases, x.isPass = true := by
      have hcount : report.cases.countP (·.isPass) = report.cases.length ↔
          ∀ x ∈ report.cases, x.isPass = true := List.countP_eq_length
      rw [← hcount]
      simp only [hsummary, RunSummary.ofCases]
      omega
    rw [hsuccess, hnone]
  · intro hs
    obtain ⟨herror, hpassed⟩ := hsuccess.mp hs
    obtain rfl := hall herror
    have hsteps := CaseSummary.sumOver_passed_of_all hbalanced hpassed
    refine ⟨hids, ?_, ?_⟩
    · simp only [hsummary, RunSummary.ofCases, hsteps, htotal]
    · rw [hsummary]
      exact htotal

/-- A run that comes to an end, in which cases have any time at all, is accounted for. -/
theorem execute_accounted (htime : 0 < r.settings.execution.caseTimeoutSecs)
    (h : execute r w cases s = (.done report, t)) : report.Accounted cases := by
  obtain ⟨finished, hledger⟩ := execute_ledger htime h
  exact hledger.accounted

/-- A browser that finds no way to pay, never ends a wait for the sum, and breaks the program down when
it waits for the end. -/
def wayward : Browser.Script where
  rules := [⟨"click", "role=button[name=\"Pay\"]", none, 0, .fail .disconnected⟩,
    ⟨"wait_for", "text=Sum", none, 0, .hang⟩, ⟨"wait_for", "*", none, 0, .breakDown (.message "gone")⟩]
  texts := []
  echoes := []
  screenshot := []

/-- Of five cases one passes, one is aborted, one runs out of time, one breaks down, and one is never
begun. -/
theorem execute_accounted_wayward :
    let r : Run :=
      { runId := "run"
        settings := { evidence := { captureScreenshots := false }, execution := { caseTimeoutSecs := 5 } }
        targetUrl := "https://x.test/"
        launch := ⟨.chromium, true, {}⟩, resolve := StopWords.usual.resolver }
    let w := wayward.world false ⟨0, 0⟩
    let cases : List TestCase :=
      [{ id := "a", steps := ["Click \"Buy\"", "Click \"Buy\""] },
        { id := "b", steps := ["Click \"Buy\"", "Click \"Pay\"", "Click \"Buy\""] },
        { id := "c", steps := ["Click \"Buy\"", "Verify \"Sum\""] },
        { id := "d", steps := ["Verify \"End\""] }, { id := "e", steps := ["Click \"Buy\""] }]
    let s : Session (List Nat) := { page := [] }
    0 < r.settings.execution.caseTimeoutSecs ∧
      ∃ report t, execute r w cases s = (.done report, t) ∧
        report.cases.map (·.termination) = [.completed, .aborted, .timedOut] ∧
        report.Accounted cases := by
  intro r w cases s
  have htime : 0 < r.settings.execution.caseTimeoutSecs := by decide
  have hends : (match (execute r w cases s).1 with
      | .done report => report.cases.map (·.termination)
      | .halted _ => []) = [.completed, .aborted, .timedOut] := by decide +kernel
  rcases h : execute r w cases s with ⟨report | halt, t⟩
  · rw [h] at hends
    exact ⟨htime, report, t, rfl, hends, execute_accounted htime h⟩
  · rw [h] at hends
    cases hends

end Run

end PlainSteps
