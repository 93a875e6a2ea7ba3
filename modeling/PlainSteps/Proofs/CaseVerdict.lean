import PlainSteps.Proofs.CaseSteps
import PlainSteps.Proofs.ScriptedBrowser

/-!
# The verdict on a case

`CaseRun.result_sound`: whatever the browser does short of breaking down, a case that has any time at
all ends with a result whose steps, termination, error, status and counts agree (`CaseResult.Sound`).

The steps of a case are judged one after the other (`runSteps_recorded`): each recorded step has its
place and is settled, all but the last passed, and how the steps ended says whether the last one
failed and whether any are missing. The status is worked out from counts and the termination from
the race with the deadline; both are read off the same recorded steps.
-/

namespace PlainSteps

variable {σ : Type}

/-! ## The recorded steps -/

/-- What a termination says about the recorded steps, of so many that were asked for. -/
def Termination.Accounts (total : Nat) (steps : List StepResult) : Termination → Prop
  | .completed => steps.length = total ∧ ∀ x ∈ steps, x.status = .pass
  | .aborted => steps.length ≤ total ∧
      ∃ passed last, steps = passed ++ [last] ∧ (∀ x ∈ passed, x.status = .pass) ∧
        last.status = .fail
  | .timedOut => steps.length < total ∧ ∀ x ∈ steps, x.status = .pass

/-- Steps that halt are as far as those of a case whose time is over, which no other steps are. -/
def Ended.Accounts (total : Nat) (steps : List StepResult) : Ended Termination → Prop
  | .done termination => termination ≠ .timedOut ∧ termination.Accounts total steps
  | .halted _ => Termination.timedOut.Accounts total steps

/-- The steps carried out are numbered from `first` on and settled, and their ending accounts for
them. -/
structure StepsRun.Recorded (first total : Nat) (x : StepsRun σ) : Prop where
  indices : x.steps.map (·.index) = List.range' first x.steps.length
  settled : ∀ y ∈ x.steps, y.Settled
  accounts : x.ending.Accounts total x.steps

theorem Termination.Accounts.cons {total : Nat} {steps : List StepResult} {e : Termination}
    {x : StepResult} (hx : x.status = .pass) (h : e.Accounts total steps) :
    e.Accounts (total + 1) (x :: steps) := by
  cases e with
  | completed => exact ⟨by simp [h.1], List.forall_mem_cons.mpr ⟨hx, h.2⟩⟩
  | aborted =>
    obtain ⟨hlen, passed, last, hsteps, hpass, hlast⟩ := h
    refine ⟨by simpa using hlen, x :: passed, last, by simp [hsteps], ?_, hlast⟩
    exact List.forall_mem_cons.mpr ⟨hx, hpass⟩
  | timedOut => exact ⟨by simpa using h.1, List.forall_mem_cons.mpr ⟨hx, h.2⟩⟩

theorem Ended.Accounts.cons {total : Nat} {steps : List StepResult} {e : Ended Termination}
    {x : StepResult} (hx : x.status = .pass) (h : e.Accounts total steps) :
    e.Accounts (total + 1) (x :: steps) := by
  cases e with
  | done termination => exact ⟨h.1, h.2.cons hx⟩
  | halted halt =>
    have h' : Termination.timedOut.Accounts total steps := h
    exact h'.cons hx

namespace Termination.Accounts

variable {total : Nat} {steps : List StepResult} {e : Termination}

theorem length_le (h : e.Accounts total steps) : steps.length ≤ total := by
  cases e with
  | completed => exact Nat.le_of_eq h.1
  | aborted => exact h.1
  | timedOut => exact Nat.le_of_lt h.1

theorem pass_of_not_last (h : e.Accounts total steps) :
    ∀ y ∈ steps.dropLast, y.status = .pass := by
  intro y hy
  cases e with
  | completed => exact h.2 y (List.dropLast_subset _ hy)
  | aborted =>
    obtain ⟨-, passed, last, rfl, hpass, -⟩ := h
    exact hpass y (by simpa using hy)
  | timedOut => exact h.2 y (List.dropLast_subset _ hy)

theorem not_last_fail (h : ∀ y ∈ steps, y.status = .pass) :
    ¬∃ y, steps.getLast? = some y ∧ y.status = .fail := by
  rintro ⟨y, hy, hfail⟩
  have hpass := h y (List.mem_of_getLast? hy)
  rw [hpass] at hfail
  cases hfail

theorem aborted_iff (h : e.Accounts total steps) :
    e = .aborted ↔ ∃ y, steps.getLast? = some y ∧ y.status = .fail := by
  cases e with
  | completed => simpa using not_last_fail h.2
  | aborted =>
    obtain ⟨-, passed, last, rfl, -, hlast⟩ := h
    simp [hlast]
  | timedOut => simpa using not_last_fail h.2

theorem completed_iff (h : e.Accounts total steps) :
    e = .completed ↔ steps.length = total ∧ ∀ y ∈ steps, y.status = .pass := by
  cases e with
  | completed => exact ⟨fun _ => h, fun _ => rfl⟩
  | aborted =>
    obtain ⟨-, passed, last, rfl, -, hlast⟩ := h
    simp [hlast]
  | timedOut =>
    have hlt := h.1
    simp only [reduceCtorEq, false_iff]
    omega

end Termination.Accounts

namespace CaseRun

theorem runSteps_recorded (r : CaseRunner) (w : World σ) {deadline : Option Nat} (caseId : String)
    (raws : List String) (index : Nat) (vars : Variables) {s : Session σ} (hs : s.InTime deadline) :
    (runSteps r w deadline caseId raws index vars s).Recorded index raws.length := by
  induction raws generalizing index vars s with
  | nil => exact ⟨rfl, by simp [runSteps_nil], by simp, rfl, by simp [runSteps_nil]⟩
  | cons raw rest ih =>
    rw [runSteps_cons]
    rcases e : oneStep r w deadline caseId raw index vars s with ⟨⟨result, vars'⟩ | h, t⟩
    · obtain ⟨hindex, hsettled, ht⟩ := oneStep_done hs e
      simp only
      by_cases hfail : result.isFail = true
      · rw [if_pos hfail]
        have hstatus := StepResult.isFail_iff.mp hfail
        exact ⟨by simp [hindex], by simp [hsettled], by simp, by simp, [], result, rfl, by simp,
          hstatus⟩
      · rw [if_neg hfail]
        have hstatus := hsettled.pass_of_not_isFail hfail
        obtain ⟨hindices, hall, haccounts⟩ := ih (index + 1) vars' ht
        refine ⟨?_, List.forall_mem_cons.mpr ⟨hsettled, hall⟩, haccounts.cons hstatus⟩
        simp only [List.map_cons, List.length_cons, List.range'_succ, hindex, hindices]
    · exact ⟨rfl, by simp, by simp, by simp⟩

end CaseRun

/-! ## Results of cases -/

/-- The parts of a result agree with each other and with the case. -/
structure CaseResult.Sound (c : TestCase) (x : CaseResult) : Prop where
  indices : x.steps.map (·.index) = List.range x.steps.length
  length_le : x.steps.length ≤ c.steps.length
  settled : ∀ y ∈ x.steps, y.Settled
  pass_of_not_last : ∀ y ∈ x.steps.dropLast, y.status = .pass
  aborted_iff : x.termination = .aborted ↔ ∃ y, x.steps.getLast? = some y ∧ y.status = .fail
  completed_iff : x.termination = .completed ↔
    x.steps.length = c.steps.length ∧ ∀ y ∈ x.steps, y.status = .pass
  lt_of_timedOut : x.termination = .timedOut → x.steps.length < c.steps.length
  error_iff : x.error.isSome ↔ x.termination = .timedOut
  pass_iff : x.status = .pass ↔ x.termination = .completed
  passed : x.summary.passed = x.steps.countP (·.status == .pass)
  failed : x.summary.failed = x.steps.countP (·.status == .fail)
  executed : x.summary.executed = x.steps.length
  total : x.summary.total = c.steps.length

theorem CaseResult.status_ofSteps {c : TestCase} {steps : List StepResult}
    {termination : Termination} {error : Option String} {began ended : Timestamp} {ms : Nat} :
    (ofSteps c steps termination error began ended ms).status = .pass ↔
      steps.length = c.steps.length ∧ ∀ y ∈ steps, y.status ≠ .fail := by
  have hcount : steps.countP (·.isFail) = 0 ↔ ∀ y ∈ steps, y.status ≠ .fail := by
    simp [StepResult.isFail]
  by_cases h : steps.countP (·.isFail) = 0 ∧ steps.length = c.steps.length
  · simp [ofSteps, h, ← hcount]
  · have h' : ¬(steps.length = c.steps.length ∧ steps.countP (·.isFail) = 0) := fun g => h g.symm
    rw [← hcount, iff_false_right h']
    simpa [ofSteps] using h

/-- A result is sound when its termination accounts for settled steps in their places, and it has an
error of its own exactly when its time was over. -/
theorem CaseResult.sound_ofSteps {c : TestCase} {steps : List StepResult}
    {termination : Termination} {error : Option String} {began ended : Timestamp} {ms : Nat}
    (hindices : steps.map (·.index) = List.range steps.length) (hsettled : ∀ y ∈ steps, y.Settled)
    (haccounts : termination.Accounts c.steps.length steps)
    (herror : error.isSome ↔ termination = .timedOut) :
    (ofSteps c steps termination error began ended ms).Sound c where
  indices := hindices
  length_le := haccounts.length_le
  settled := hsettled
  pass_of_not_last := haccounts.pass_of_not_last
  aborted_iff := haccounts.aborted_iff
  completed_iff := haccounts.completed_iff
  lt_of_timedOut := by
    rintro rfl
    exact haccounts.1
  error_iff := herror
  pass_iff := by
    have hpass : (∀ y ∈ steps, y.status ≠ .fail) ↔ ∀ y ∈ steps, y.status = .pass := by
      refine forall_congr' fun y => forall_congr' fun hy => ?_
      rcases (hsettled y hy).judged with h | h <;> simp [h]
    rw [status_ofSteps, hpass]
    exact haccounts.completed_iff.symm
  passed := rfl
  failed := rfl
  executed := rfl
  total := rfl

namespace CaseRun

/-- A case that has any time at all, on a browser that does not break down, ends with a sound result,
whatever its requests come to and wherever the deadline falls. -/
theorem result_sound (r : CaseRunner) {w : World σ} (hw : w.Calm)
    (htime : 0 < r.execution.caseTimeoutSecs) (c : TestCase) (s : Session σ) :
    ∃ result t, run r w c s = (.done result, t) ∧ result.Sound c := by
  have hrecorded := runSteps_recorded r w c.id c.steps 0 .empty (inTime_start r s)
  rw [← carried_of_pos htime w c s] at hrecorded
  obtain ⟨hindices, hsettled, haccounts⟩ := hrecorded
  rw [← List.range_eq_range'] at hindices
  rcases carried_ending r hw c s with he | ⟨termination, he⟩
  · rw [he] at haccounts
    refine ⟨_, _, by rw [run_eq, he]; rfl, ?_⟩
    exact CaseResult.sound_ofSteps hindices hsettled haccounts (by simp)
  · rw [he] at haccounts
    refine ⟨_, _, by rw [run_eq, he]; rfl, ?_⟩
    exact CaseResult.sound_ofSteps hindices hsettled haccounts.2 (by simpa using haccounts.1)

/-- A browser on which no click ever ends. -/
def frozen : Browser.Script where
  rules := [⟨"click", "*", none, 0, .hang⟩]
  texts := []
  echoes := []
  screenshot := []

/-- A case of two clicks on such a browser ends soundly. -/
theorem result_sound_frozen :
    let r := CaseRunner.ofSettings {} StopWords.usual.resolver "run" "https://x.test/"
    let w := frozen.world false ⟨0, 0⟩
    let c : TestCase := { id := "clicks", steps := ["Click \"Buy\"", "Click \"Pay\""] }
    w.Calm ∧ 0 < r.execution.caseTimeoutSecs ∧
      ∃ result t, run r w c { page := [] } = (.done result, t) ∧ result.Sound c := by
  intro r w c
  have hw : w.Calm := Browser.Script.calm_world (by simp [frozen]) _ _
  have htime : 0 < r.execution.caseTimeoutSecs := by decide
  exact ⟨hw, htime, result_sound r hw htime c _⟩

end CaseRun

end PlainSteps
