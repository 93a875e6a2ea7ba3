import PlainSteps.Proofs.SavedFiles

/-!
# The screenshot of each step

`CaseRun.run_photographed`: when screenshots are wanted each recorded step has asked for one image of
the page, after all its other requests (`Photographed`), and it has a screenshot exactly when that
request and the writing of the image have succeeded.

An action asks for no image (`Step.asks_perform_unshot`), so the one request of `Step.takeScreenshot` is
the only one for an image, and nothing is asked of the browser after it.
-/

namespace PlainSteps

variable {σ α : Type}

/-! ## Requests -/

namespace Routine

variable {w : World σ} {d : Nat} {s t : Session σ}

theorem requests_of_asks_nothing {r : Routine α} (hr : r.Asks fun _ => False) :
    r.requests w d s = [] :=
  List.eq_nil_iff_forall_not_mem.mpr fun _ hq => asks_of_mem_requests hr hq

theorem requests_request (w : World σ) (d : Nat) (c : Call) (s : Session σ) :
    (request c).requests w d s =
      [⟨s.page, s.now, c, ((request c).run w (some d) s).2.now⟩] := by
  rw [request, requests, run_call]
  rcases s.ask w (some d) c none with ⟨reply | h, t⟩
  · cases reply <;> rfl
  · rfl

theorem run_request_eq_done {deadline : Option Nat} {c : Call} {result : Except BrowserError Value}
    (e : (request c).run w deadline s = (.done result, t)) :
    t = s.awaited w c t.now ∧ (w.answer s.page s.now c).outcome.result = .done result := by
  rw [request, run_call] at e
  simp only [Session.ask] at e
  generalize (w.answer s.page s.now c).delay = delay at e
  cases delay with
  | none => cases deadline <;> cases e
  | some ms =>
    simp only [waitFor, Option.map_none, if_true] at e
    by_cases hreach : Session.reaches w deadline s.now (s.now + ms) = true
    · rw [if_pos hreach] at e
      generalize (w.answer s.page s.now c).outcome = outcome at e ⊢
      cases outcome with
      | ok v =>
        cases e
        exact ⟨rfl, rfl⟩
      | failed error =>
        cases e
        exact ⟨rfl, rfl⟩
      | breakdown b => cases e
    · rw [if_neg hreach] at e
      cases e

end Routine

/-! ## Images -/

/-- A request for an image of the whole page. A screenshot comes of it exactly when it succeeds and the
image can be written to the path: then the screenshot has the size and the digest of the image. -/
structure Request.Shoots (w : World σ) (path : String) (shot : Request σ)
    (screenshot : Option Screenshot) : Prop where
  whole : shot.call = .screenshot true
  kept : ∀ a, screenshot = some a ↔
    ∃ v, (w.answer shot.page shot.time shot.call).outcome = .ok v ∧
      w.stores (shot.after w) shot.ended path = true ∧
      a = ⟨path, v.bytes.length, Digest.hexDigest v.bytes⟩

/-- Of the requests of a step, the last and no other is for an image, and the screenshot of the step is
what comes of it. -/
def Photographed (w : World σ) (path : String) (qs : List (Request σ)) (x : StepResult) : Prop :=
  ∃ own shot, qs = own ++ [shot] ∧ (∀ q ∈ own, q.call.isScreenshot = false) ∧
    shot.Shoots w path x.screenshot

namespace Step

open Routine

variable {w : World σ} {d : Nat} {folder : String} {index : Nat} {s t : Session σ}
  {screenshot : Option Screenshot}

theorem run_keepScreenshot (w : World σ) (deadline : Option Nat) (folder : String) (index : Nat)
    (image : List UInt8) (s : Session σ) :
    ∃ t, (keepScreenshot folder index image).run w deadline s =
      (.done (if w.stores s.page s.now (Evidence.file folder index) then
        some ⟨Evidence.file folder index, image.length, Digest.hexDigest image⟩ else none), t) := by
  simp only [keepScreenshot, run]
  split
  · exact ⟨_, rfl⟩
  · exact ⟨_, rfl⟩

theorem requests_keepScreenshot (image : List UInt8) :
    (keepScreenshot folder index image).requests w d s = [] :=
  requests_of_asks_nothing fun _ => trivial

theorem requests_takeScreenshot
    (e : (takeScreenshot folder index).run w (some d) s = (.done screenshot, t)) :
    ∃ shot : Request σ, (takeScreenshot folder index).requests w d s = [shot] ∧
      shot.Shoots w (Evidence.file folder index) screenshot := by
  rw [takeScreenshot, run_bind] at e
  obtain ⟨result, t₁, e₁, e₂⟩ := Ended.andThen_eq_done e
  obtain ⟨ht₁, hresult⟩ := run_request_eq_done e₁
  have hrequest : (request (.screenshot true)).requests w d s =
      [⟨s.page, s.now, .screenshot true, t₁.now⟩] := by
    rw [requests_request, e₁]
  refine ⟨⟨s.page, s.now, .screenshot true, t₁.now⟩, ?_, rfl, fun a => ?_⟩
  · rw [takeScreenshot, requests_bind, e₁, Ended.traceThen_done, hrequest]
    rcases result with error | v
    · rfl
    · rw [requests_keepScreenshot, List.append_nil]
  · have hpage : t₁.page = (w.answer s.page s.now (.screenshot true)).page := by rw [ht₁]; rfl
    simp only [Request.after, ← hpage]
    cases ho : (w.answer s.page s.now (.screenshot true)).outcome with
    | ok v =>
      rw [ho] at hresult
      cases hresult
      obtain ⟨u, hkeep⟩ := run_keepScreenshot w (some d) folder index v.bytes t₁
      cases e₂.symm.trans hkeep
      constructor
      · intro ha
        split at ha
        · rename_i hstores
          exact ⟨v, rfl, hstores, (Option.some.inj ha).symm⟩
        · cases ha
      · rintro ⟨v', hv', hstores, rfl⟩
        cases hv'
        rw [if_pos hstores]
    | failed error =>
      rw [ho] at hresult
      cases hresult
      cases e₂
      constructor
      · intro ha
        cases ha
      · rintro ⟨v, hv, -⟩
        cases hv
    | breakdown b =>
      rw [ho] at hresult
      cases hresult

theorem requests_close {x : Context} (hx : x.evidence = some folder)
    (e : (close x index).run w (some d) s = (.done screenshot, t)) :
    ∃ shot : Request σ, (close x index).requests w d s = [shot] ∧
      shot.Shoots w (Evidence.file folder index) screenshot := by
  simp only [close, hx, run_bind] at e
  obtain ⟨result, t₁, e₁, e₂⟩ := Ended.andThen_eq_done e
  obtain ⟨-, t₂, e₃, e₄⟩ := Ended.andThen_eq_done e₂
  cases e₄
  obtain ⟨shot, hshot, hshoots⟩ := requests_takeScreenshot e₁
  refine ⟨shot, ?_, hshoots⟩
  have hrest : ((rest x.execution.settleDelay).bind fun _ => done screenshot).requests w d t₁ = [] :=
    requests_of_asks_nothing (asks_bind (asks_rest _) fun _ => trivial)
  simp only [close, hx, requests_bind, hshot, e₁, Ended.traceThen_done]
  rw [← requests_bind, hrest, List.append_nil]

end Step

/-! ## Steps -/

namespace CaseRun

open Routine

variable {r : CaseRunner} {w : World σ} {d : Nat} {caseId raw : String} {index : Nat}
  {vars vars' : Variables} {s t : Session σ} {result : StepResult}

theorem context_evidence (hr : r.evidence.captureScreenshots = true) (caseId : String) :
    (r.context caseId).evidence = some (Evidence.folder r.evidence.outputDir r.runId caseId) :=
  if_pos hr

theorem oneStep_photographed (hr : r.evidence.captureScreenshots = true) (hs : s.now ≤ d)
    (e : oneStep r w (some d) caseId raw index vars s = (.done (result, vars'), t)) :
    Photographed w (shotPath r caseId result.index) (stepRequests r w d caseId raw index vars s)
      result := by
  have hindex := (oneStep_done (Session.inTime_some.mpr hs) e).1
  obtain ⟨verdict, t₁, screenshot, t₂, e₁, e₂, hresult, -⟩ := oneStep_eq_done e
  obtain ⟨shot, hshot, hshoots⟩ := Step.requests_close (context_evidence hr caseId) e₂
  have hrequests : stepRequests r w d caseId raw index vars s =
      (Step.perform (r.context caseId) (Sentence.classify r.rules (vars.substitute raw)) vars).requests w d
        (beginStep r w caseId index (Sentence.normalize (vars.substitute raw)) s) ++ [shot] := by
    rw [stepRequests, routine, requests_bind, e₁, Ended.traceThen_done, hshot]
  have hscreenshot : result.screenshot = screenshot := by rw [hresult]
  refine ⟨_, shot, hrequests, fun q hq => ?_, ?_⟩
  · exact asks_of_mem_requests (Step.asks_perform_unshot _ _ _) hq
  · rw [hindex, hscreenshot]
    exact hshoots

theorem runSteps_photographed (hr : r.evidence.captureScreenshots = true) (raws : List String)
    (index : Nat) (vars : Variables) (hs : s.now ≤ d) :
    List.Forall₂ (fun qs x => Photographed w (shotPath r caseId x.index) qs x)
      ((requests r w d caseId raws index vars s).take
        (runSteps r w (some d) caseId raws index vars s).steps.length)
      (runSteps r w (some d) caseId raws index vars s).steps := by
  induction raws generalizing index vars s with
  | nil => exact .nil
  | cons raw rest ih =>
    rw [runSteps_cons, requests]
    rcases hstep : oneStep r w (some d) caseId raw index vars s with ⟨⟨result, vars'⟩ | halt, t⟩
    · have hfirst := oneStep_photographed hr hs hstep
      have ht := (oneStep_done (Session.inTime_some.mpr hs) hstep).2.2
      simp only [Ended.traceThen_done]
      split
      · exact .cons hfirst .nil
      · exact .cons hfirst (ih (index + 1) vars' (Session.inTime_some.mp ht))
    · exact .nil

/-! ## Cases -/

variable {c : TestCase} {x : CaseResult}

theorem run_photographed (hr : r.evidence.captureScreenshots = true)
    (h : run r w c s = (.done x, t)) :
    List.Forall₂ (fun qs y => Photographed w (shotPath r c.id y.index) qs y)
      ((trace r w c s).steps.take x.steps.length) x.steps := by
  rw [run_steps h]
  unfold carried trace
  split
  · exact runSteps_photographed hr c.steps 0 .empty (now_le_deadline r s)
  · exact .nil

end CaseRun

end PlainSteps
