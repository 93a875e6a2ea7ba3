import PlainSteps.Proofs.Attempts
import PlainSteps.Proofs.Requests

/-!
# Locators are tried in turn

To click an element, to fill it or to read it, a step tries the locators of its target one after the
other. An attempt settles the matter (`Reply.settles`) when it succeeds, or when it fails in such a way
that no other can succeed; an attempt that is given up settles nothing.

* `Tried` : attempts at the locators of a list in order, up to the first that settles the matter.
* `Step.found` : what attempts come to, which depends on the last of them only.
* `Step.attempts_run` : by induction on the locators, with the cases of the first attempt.
* `Step.Concluded` : the status and the error that are recorded.
* `Step.locators_in_turn` : all of this for an action, with the time that each attempt takes.
-/

namespace PlainSteps

variable {σ : Type}

/-- After such a reply no other attempt is made. -/
def Reply.settles : Reply → Bool
  | ok _ => true
  | failed e => e.isFatal
  | late => false

/-- Attempts at the locators of a list in order, up to the first that settles the matter, or at all of
them if none does. -/
structure Tried (ask : String → Call) (ls : List String) (qs : List (Attempt σ)) : Prop where
  calls : qs.map (·.call) = (ls.take qs.length).map ask
  unsettled : ∀ q ∈ qs.dropLast, q.reply.settles = false
  settled : qs.length < ls.length → ∃ q ∈ qs.getLast?, q.reply.settles = true

namespace Tried

variable {ask : String → Call} {ls : List String} {qs : List (Attempt σ)} {q : Attempt σ} {l : String}

theorem nil : Tried ask [] ([] : List (Attempt σ)) where
  calls := rfl
  unsettled := by simp
  settled h := absurd h (Nat.lt_irrefl 0)

theorem last (hcall : q.call = ask l) (hq : q.reply.settles = true) : Tried ask (l :: ls) [q] where
  calls := by simp [hcall]
  unsettled := by simp
  settled _ := ⟨q, rfl, hq⟩

theorem cons (hcall : q.call = ask l) (hq : q.reply.settles = false) (h : Tried ask ls qs) :
    Tried ask (l :: ls) (q :: qs) where
  calls := by simp [hcall, h.calls]
  unsettled := by
    cases qs with
    | nil => simp
    | cons q' qs => exact List.forall_mem_cons.mpr ⟨hq, h.unsettled⟩
  settled hlt := by
    obtain ⟨q', hq', hsettles⟩ := h.settled (Nat.lt_of_succ_lt_succ hlt)
    refine ⟨q', ?_, hsettles⟩
    rw [List.getLast?_cons, Option.mem_def.mp hq']
    rfl

theorem exists_locator (h : Tried ask ls qs) (hq : q ∈ qs) : ∃ l ∈ ls, q.call = ask l := by
  have hcall := List.mem_map_of_mem (f := fun q : Attempt σ => q.call) hq
  rw [h.calls] at hcall
  obtain ⟨l, hl, hask⟩ := List.mem_map.mp hcall
  exact ⟨l, List.mem_of_mem_take hl, hask.symm⟩

end Tried

namespace Step

open Routine

/-! ## The attempts on a target -/

section attempts

variable (kind : ActionKind) (target : Target)

/-- What attempts on a target come to, by what came of the last of them. -/
def found : Option Reply → Except StepError Value
  | some (.ok v) => .ok v
  | some (.failed e) => .error (.onElement kind target e)
  | some .late | none => .error (.missing kind target)

theorem found_of_unsettled {reply : Reply} (h : reply.settles = false) :
    found kind target (some reply) = .error (.missing kind target) := by
  cases reply with
  | ok v => cases h
  | failed e =>
    have he : ¬e.isFatal = true := by simpa [Reply.settles] using h
    simp only [found, StepError.onElement, if_neg he]
  | late => rfl

theorem found_cons {q : Attempt σ} (hq : q.reply.settles = false) (qs : List (Attempt σ)) :
    found kind target ((q :: qs).getLast?.map (·.reply)) =
      found kind target (qs.getLast?.map (·.reply)) := by
  cases qs with
  | nil => exact found_of_unsettled kind target hq
  | cons q' qs => rw [List.getLast?_cons_cons]

theorem attempts_cons (timeout : Nat) (request : String → Call) (l : String) (ls : List String) :
    attempts kind target timeout request (l :: ls) =
      (ask (request l) (some (timeout + grace))).bind fun reply =>
        if reply.settles then done (found kind target (some reply))
        else attempts kind target timeout request ls := by
  rw [attempts, bounded_bind]
  congr 1
  funext reply
  cases reply with
  | ok v => rfl
  | failed e =>
    simp only [Reply.settles, found, StepError.onElement]
    split <;> rfl
  | late => rfl

variable {w : World σ} {timeout : Nat} {request : String → Call}

/-- A cascade makes its attempts in order, and comes to what came of the last. -/
theorem attempts_run (hw : w.Calm) (htimeout : ∀ l, (request l).timeout? = some timeout)
    (ls : List String) (s : Session σ) :
    ∃ qs t, (attempts kind target timeout request ls).attempted w s = qs ∧ Series w qs s t ∧
      Tried request ls qs ∧ (attempts kind target timeout request ls).run w none s =
        (.done (found kind target (qs.getLast?.map (·.reply))), t) := by
  induction ls generalizing s with
  | nil => exact ⟨[], s, rfl, .nil s, .nil, rfl⟩
  | cons l ls ih =>
    obtain ⟨q, t, hfirst, hcall, hseries, hrun⟩ := ask_run hw (htimeout l) s
    rw [attempts_cons, attempted_bind, run_bind, hfirst, hrun, Ended.traceThen_done,
      Ended.andThen_done]
    -- The first attempt settles the matter, or the others follow.
    cases hq : q.reply.settles with
    | true => exact ⟨[q], t, rfl, hseries, .last hcall hq, rfl⟩
    | false =>
      obtain ⟨qs, u, hrest, hseries', htried, hrun'⟩ := ih t
      refine ⟨q :: qs, u, ?_, hseries.append hseries', .cons hcall hq htried, ?_⟩
      · simp [hrest]
      · simp only [Bool.false_eq_true, if_false, hrun', found_cons kind target hq]

end attempts

end Step

/-! ## Actions on an element -/

/-- The target of an action that clicks, fills or reads an element, with the request that it makes for
a locator and its time. -/
def Action.handled? : Action → Option (Target × ActionKind × (String → Nat → Call))
  | click target => some (target, .click, .click)
  | fill value target => some (target, .fill, fun l timeout => .fill l value timeout)
  | store source _ => some (source, .store, .readText)
  | navigate _ | conditional _ _ _ | waitFor _ _ | waitForLoad | waitDuration _ | verify _
  | unknown _ => none

/-- How an action ends whose element was found or not. -/
def Verdict.ofFound : Except StepError Value → Verdict
  | .ok _ => .done
  | .error e => .failed e

/-- The error recorded of a step with a verdict. -/
def Verdict.error? : Verdict → Option String
  | failed e => some e.message
  | done | skipped _ => none

theorem StepResult.error_judged (index : Nat) (description : String) (began now : Timestamp)
    (v : Verdict) (elapsed : Nat) :
    ((begun index description began).judged v now elapsed).error = v.error? := by
  cases v <;> rfl

namespace CaseRun

theorem runStep_eq_done {x : Step.Context} {w : World σ} {d : Option Nat} {index : Nat}
    {description : String} {action : Action} {vars vars' : Variables} {s u : Session σ}
    {result : StepResult}
    (h : runStep x w d index description action vars s = (.done (result, vars'), u)) :
    ∃ verdict t, (Step.perform x action vars).run w none s = (.done (verdict, vars'), t) ∧
      result.status = verdict.status ∧ result.error = verdict.error? ∧ result.note = verdict.note? ∧
      ∃ shots, u.events = t.events ++ shots ∧
        ∀ e ∈ shots, ∃ time, e = .call time (.screenshot true) := by
  have hrun := runStep_uncut h
  rw [runStep_eq] at hrun
  obtain ⟨⟨verdict, vars''⟩, t, hperform, hrun⟩ := Ended.andThen_eq_done hrun
  obtain ⟨shot, t', hclose, hrun⟩ := Ended.andThen_eq_done hrun
  obtain ⟨shots, hshots, hall⟩ :=
    Routine.run_events (P := fun c => c = .screenshot true) (Step.asks_close x index rfl) w none t
  rw [hclose] at hshots
  cases hrun
  refine ⟨verdict, t, hperform, StepResult.status_judged _ _ _ _,
    StepResult.error_judged _ _ _ _ _ _, StepResult.note_judged _ _ _ _ _ _, shots, hshots, ?_⟩
  intro e he
  obtain ⟨time, c, rfl, rfl⟩ := hall e he
  exact ⟨time, rfl⟩

theorem runStep_recorded {x : Step.Context} (hx : x.evidence = none) {w : World σ} {action : Action}
    {vars vars' : Variables} {verdict : Verdict} {s t : Session σ}
    (h : (Step.perform x action vars).run w none s = (.done (verdict, vars'), t)) (index : Nat)
    (description : String) : ∃ result u,
      runStep x w none index description action vars s = (.done (result, vars'), u) := by
  have hclose : ∃ u, (Step.close x index).run w none t = (.done none, u) := by
    simp only [Step.close, hx, Routine.done_bind, Routine.rest]
    split
    · exact ⟨t, rfl⟩
    · exact ⟨_, rfl⟩
  obtain ⟨u, hclose⟩ := hclose
  exact ⟨_, u, by rw [runStep_eq, h, Ended.andThen_done, hclose, Ended.andThen_done]⟩

end CaseRun

namespace Step

open Routine

theorem timeout_of_handled {action : Action} {target : Target} {kind : ActionKind}
    {ask : String → Nat → Call} (h : action.handled? = some (target, kind, ask)) (l : String)
    (timeout : Nat) : (ask l timeout).timeout? = some timeout := by
  cases action with
  | click target => cases h; rfl
  | fill value target => cases h; rfl
  | store source name => cases h; rfl
  | _ => cases h

theorem perform_handled {action : Action} {target : Target} {kind : ActionKind}
    {ask : String → Nat → Call} (h : action.handled? = some (target, kind, ask)) (x : Context)
    (vars : Variables) : ∃ after : Except StepError Value → Variables,
      perform x action vars =
        (onTarget x kind target ask).bind fun r => done (Verdict.ofFound r, after r) := by
  cases action with
  | click target =>
    cases h
    refine ⟨fun _ => vars, ?_⟩
    rw [perform, element, bind_assoc]
    congr 1
    funext r
    cases r <;> rfl
  | fill value target =>
    cases h
    refine ⟨fun _ => vars, ?_⟩
    rw [perform, element, bind_assoc]
    congr 1
    funext r
    cases r <;> rfl
  | store source name =>
    cases h
    refine ⟨fun | .ok v => vars.set name v.textOr | .error _ => vars, ?_⟩
    rw [perform]
    congr 1
    funext r
    cases r <;> rfl
  | _ => cases h

/-- An action on an element comes to an end after its attempts, as the last of them tells. -/
theorem handled_run {action : Action} {target : Target} {kind : ActionKind}
    {ask : String → Nat → Call} (h : action.handled? = some (target, kind, ask)) (x : Context)
    {w : World σ} (hw : w.Calm) (vars : Variables) (s : Session σ) :
    ∃ qs t vars', (perform x action vars).attempted w s = qs ∧ Series w qs s t ∧
      Tried (ask · (locators x kind target).2) (locators x kind target).1 qs ∧
      (perform x action vars).run w none s = (.done
        (Verdict.ofFound (found kind target (qs.getLast?.map (·.reply))), vars'), t) := by
  obtain ⟨after, hperform⟩ := perform_handled h x vars
  obtain ⟨qs, t, hattempted, hseries, htried, hrun⟩ :=
    attempts_run kind target hw (fun l => timeout_of_handled h l (locators x kind target).2)
      (locators x kind target).1 s
  refine ⟨qs, t, after (found kind target (qs.getLast?.map (·.reply))), ?_, hseries, htried, ?_⟩
  · rw [hperform, attempted_bind_done]
    exact hattempted
  · rw [hperform, run_bind, onTarget, hrun]
    rfl

/-- What is recorded of a step whose target is tried, by what came of the last attempt, if any. -/
inductive Concluded (kind : ActionKind) (target : Target) :
    Option Reply → StepStatus → Option String → Prop
  | works (v : Value) : Concluded kind target (some (.ok v)) .pass none
  | breaks {e : BrowserError} (h : e.isFatal = true) :
      Concluded kind target (some (.failed e)) .fail (some ("Browser error: " ++ e.message))
  | misses {last : Option Reply} (h : ∀ reply ∈ last, reply.settles = false) :
      Concluded kind target last .fail
        (some ("Could not find element to " ++ kind.verb ++ ": " ++ target.display))

theorem Concluded.pass_iff {kind : ActionKind} {target : Target} {last : Option Reply}
    {status : StepStatus} {error : Option String} (h : Concluded kind target last status error) :
    status = .pass ↔ ∃ v, last = some (.ok v) := by
  cases h with
  | works v => simp
  | breaks h => simp
  | misses h =>
    refine ⟨fun hstatus => (nomatch hstatus), ?_⟩
    rintro ⟨v, rfl⟩
    cases h _ rfl

theorem Concluded.eq_missing {kind : ActionKind} {target : Target} {last : Option Reply} {status : StepStatus}
    {error : Option String} (h : Concluded kind target last status error)
    (hlast : ∀ reply ∈ last, reply.settles = false) : status = .fail ∧
      error = some ("Could not find element to " ++ kind.verb ++ ": " ++ target.display) := by
  cases h with
  | works v => cases hlast _ rfl
  | breaks he =>
    have hsettles := hlast _ rfl
    rw [Reply.settles, he] at hsettles
    cases hsettles
  | misses h => exact ⟨rfl, rfl⟩

theorem concluded_found (kind : ActionKind) (target : Target) (last : Option Reply) :
    Concluded kind target last (Verdict.ofFound (found kind target last)).status
      (Verdict.ofFound (found kind target last)).error? := by
  by_cases hlast : ∀ reply ∈ last, reply.settles = false
  · have hfound : found kind target last = .error (.missing kind target) := by
      cases last with
      | none => rfl
      | some reply => exact found_of_unsettled kind target (hlast reply rfl)
    rw [hfound]
    exact .misses hlast
  · obtain ⟨reply, rfl, hreply⟩ : ∃ reply, last = some reply ∧ reply.settles = true := by
      simpa using hlast
    cases reply with
    | ok v => exact .works v
    | failed e =>
      have he : e.isFatal = true := hreply
      simp only [found, StepError.onElement, if_pos he]
      exact .breaks he
    | late => cases hreply

/-- To click, to fill or to read an element, a step tries the locators of its target in order, up to the
first attempt that succeeds or fails fatally: the one locator of an explicit target with the time of a
wait, and those that the resolver has for an implied one with the time of a candidate. Each attempt
begins when the one before it is over, and is over at most a second after its time limit. The step
passes if the last attempt succeeded, fails with the error of the browser if that was fatal, and else,
also without any attempt, for want of the element. -/
theorem locators_in_turn {action : Action} {target : Target} {kind : ActionKind}
    {ask : String → Nat → Call} (haction : action.handled? = some (target, kind, ask)) (x : Context)
    {w : World σ} (hw : w.Calm) (vars : Variables) (s : Session σ) :
    ∃ verdict vars' t, (perform x action vars).run w none s = (.done (verdict, vars'), t) ∧
      let (ls, timeout) := locators x kind target
      let qs := (perform x action vars).attempted w s
      Series w qs s t ∧ Tried (ask · timeout) ls qs ∧
      qs.IsChain (fun q q' => q'.time = q.ended) ∧
      (∀ q ∈ qs, q.time ≤ q.ended ∧ q.ended ≤ q.time + timeout + 1000) ∧
      (x.evidence = none → ∀ index description, ∃ result u,
        CaseRun.runStep x w none index description action vars s = (.done (result, vars'), u)) ∧
      ∀ d index description result vars'' u,
        CaseRun.runStep x w d index description action vars s = (.done (result, vars''), u) →
        Concluded kind target (qs.getLast?.map (·.reply)) result.status result.error ∧
        ∃ shots, u.events = s.events ++ qs.map (·.event) ++ shots ∧
          ∀ e ∈ shots, ∃ time, e = .call time (.screenshot true) := by
  obtain ⟨qs, t, vars', hqs, hseries, htried, hdone⟩ := handled_run haction x hw vars s
  refine ⟨_, _, t, hdone, ?_⟩
  simp only [hqs]
  refine ⟨hseries, htried, hseries.times.1, ?_, ?_, ?_⟩
  · intro q hq
    obtain ⟨l, -, hcall⟩ := htried.exists_locator hq
    obtain ⟨timeout, htimeout, hle, hend⟩ := hseries.ended_le q hq
    rw [hcall, timeout_of_handled haction] at htimeout
    obtain rfl := Option.some.inj htimeout
    exact ⟨hle, hend⟩
  · exact fun hx => CaseRun.runStep_recorded hx hdone
  · intro d index description result vars'' u hstep
    obtain ⟨verdict, t', hperform', hstatus, herror, -, shots, hshots, hall⟩ :=
      CaseRun.runStep_eq_done hstep
    rw [hdone] at hperform'
    cases hperform'
    refine ⟨?_, shots, by rw [hshots, hseries.events], hall⟩
    rw [hstatus, herror]
    exact concluded_found kind target _

end Step

/-- A page whose first locator is refused, and whose second never answers. -/
def Browser.Script.reluctant : Browser.Script where
  rules := [⟨"click", "css=a", none, 0, .fail (.driver "no")⟩, ⟨"click", "css=b", none, 0, .hang⟩]
  texts := []
  echoes := []
  screenshot := []

/-- Of four locators for an implied target the third works, so that the fourth is not tried. An explicit
target is tried alone, with the time of a wait. -/
theorem Step.locators_in_turn_reluctant :
    let settings : Settings := {}
    let x : Step.Context := ⟨fun _ _ => ["css=a", "css=b", "css=c", "css=d"], settings.execution,
      "https://x.test/", none⟩
    let w := Browser.Script.reluctant.world false ⟨0, 0⟩
    let start : Session (List Nat) := { page := [] }
    (∃ qs t, Series w qs start t ∧ qs.map (·.call) = ["css=a", "css=b", "css=c"].map (.click · 2000) ∧
      qs.map (·.ended) = [0, 3000, 3000] ∧
      ∃ result vars u, CaseRun.runStep x w none 0 "Click Save" (.click (.implied "Save")) .empty start =
        (.done (result, vars), u) ∧ result.status = .pass) ∧
    ∃ qs t, Series w qs start t ∧ qs.map (·.call) = [.click "css=b" 10000] ∧ qs.map (·.ended) = [11000] ∧
      ∃ result vars u, CaseRun.runStep x w none 0 "Click css=b" (.click (.explicit "css=b")) .empty start =
        (.done (result, vars), u) ∧ result.status = .fail ∧
          result.error = some "Could not find element to click: css=b" := by
  intro settings x w start
  have hcalm : w.Calm := Browser.Script.calm_world (by simp [Browser.Script.reluctant]) _ _
  constructor
  · have haction : (Action.click (.implied "Save")).handled? = some (.implied "Save", .click, .click) := rfl
    obtain ⟨verdict, vars, t, -, hseries, htried, -, -, hrecorded, hconcluded⟩ :=
      locators_in_turn haction x hcalm .empty start
    refine ⟨_, t, hseries, ?_, by decide +kernel, ?_⟩
    · rw [htried.calls]
      decide +kernel
    · obtain ⟨result, u, hstep⟩ := hrecorded rfl 0 "Click Save"
      refine ⟨result, vars, u, hstep, ?_⟩
      obtain ⟨hresult, -⟩ := hconcluded none 0 "Click Save" result vars u hstep
      have hlast : (((Step.perform x (.click (.implied "Save")) .empty).attempted w start).getLast?).map
          (·.reply) = some (.ok .nothing) := by decide +kernel
      exact hresult.pass_iff.mpr ⟨_, hlast⟩
  · have haction : (Action.click (.explicit "css=b")).handled? =
        some (.explicit "css=b", .click, .click) := rfl
    obtain ⟨verdict, vars, t, -, hseries, htried, -, -, hrecorded, hconcluded⟩ :=
      locators_in_turn haction x hcalm .empty start
    refine ⟨_, t, hseries, ?_, by decide +kernel, ?_⟩
    · rw [htried.calls]
      decide +kernel
    · obtain ⟨result, u, hstep⟩ := hrecorded rfl 0 "Click css=b"
      refine ⟨result, vars, u, hstep, ?_⟩
      obtain ⟨hresult, -⟩ := hconcluded none 0 "Click css=b" result vars u hstep
      have hlast : (((Step.perform x (.click (.explicit "css=b")) .empty).attempted w start).getLast?).map
          (·.reply) = some .late := by decide +kernel
      rw [hlast] at hresult
      exact hresult.eq_missing (by rintro reply ⟨rfl⟩; rfl)

end PlainSteps
