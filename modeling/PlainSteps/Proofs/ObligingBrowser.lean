import PlainSteps.Proofs.CaseSteps

/-!
# Browsers on which every request succeeds

* `World.Obliging` : every request succeeds within the time that it is given.
* `Ended.Meets` : an end that was not cut at the deadline is of a kind.
* `CaseRun.oneStep_meets` : on such a browser a step has the verdict of its action, and its requests
  are those of the action and of what follows it.
-/

namespace PlainSteps

variable {σ α β : Type}

/-- The time limit of a request. -/
def Call.timeout? : Call → Option Nat
  | goto _ _ timeout | waitForLoad _ timeout | click _ timeout | fill _ _ timeout
  | readText _ timeout | waitFor _ _ timeout => some timeout
  | launch _ | openPage | close | screenshot _ => none

/-- Every request succeeds, and no later than it is given up. -/
def World.Obliging (w : World σ) : Prop :=
  ∀ page time c, ∃ ms v, (w.answer page time c).delay = some ms ∧
    (w.answer page time c).outcome = .ok v ∧
    ∀ timeout ∈ c.timeout?, ms ≤ min Session.longest (timeout + Routine.grace)

/-- Reading a locator brings back a text, whenever it succeeds. -/
def World.Reads (w : World σ) (locator text : String) : Prop :=
  ∀ page time timeout v, (w.answer page time (.readText locator timeout)).outcome = .ok v →
    v = .text text

theorem World.Obliging.calm {w : World σ} (hw : w.Obliging) : w.Calm := by
  intro page time c b hb
  obtain ⟨ms, v, -, hv, -⟩ := hw page time c
  rw [hv] at hb
  cases hb

namespace Browser.Script

variable (p : Script) (blocked : Bool) (opening : Timestamp)

theorem obliging_world (h : p.rules = []) : (p.world blocked opening).Obliging := by
  intro uses time c
  have hanswer : ((p.world blocked opening).answer uses time c).delay = some 0 ∧
      ((p.world blocked opening).answer uses time c).outcome = .ok (p.value c) := by
    simp [world, answer, h, pick, outcome]
  exact ⟨0, p.value c, hanswer.1, hanswer.2, fun _ _ => Nat.zero_le _⟩

theorem reads_world {locator text : String}
    (h : (p.texts.find? (·.1 == locator)).map (·.2) = some text) :
    (p.world blocked opening).Reads locator text := by
  intro uses time timeout v hv
  simp only [world, answer] at hv
  generalize ((pick (.readText locator timeout) p.rules uses).1.map (·.behavior)).getD .succeed =
    behavior at hv
  cases behavior with
  | succeed =>
    cases hv
    simp [value, h]
  | hang =>
    cases hv
    simp [value, h]
  | _ => cases hv

end Browser.Script

/-! ## Ends before the deadline -/

/-- Unless it was cut at the deadline, an end is of a kind. -/
def Ended.Meets (P : α → Session σ → Prop) (x : Ended α × Session σ) : Prop :=
  x.1 = .halted .deadline ∨ ∃ a t, x = (.done a, t) ∧ P a t

namespace Ended.Meets

variable {P : α → Session σ → Prop} {Q : β → Session σ → Prop} {x : Ended α × Session σ}

theorem of_done {a : α} {t : Session σ} (h : P a t) : Meets P (.done a, t) :=
  .inr ⟨a, t, rfl, h⟩

theorem andThen {f : α → Session σ → Ended β × Session σ} (hx : Meets P x)
    (hf : ∀ a t, P a t → Meets Q (f a t)) : Meets Q (Ended.andThen x f) := by
  rcases hx with hx | ⟨a, t, rfl, h⟩
  · obtain ⟨x₁, t⟩ := x
    obtain rfl : x₁ = .halted .deadline := hx
    exact .inl rfl
  · exact hf a t h

theorem mono {R : α → Session σ → Prop} (hx : Meets P x) (h : ∀ a t, P a t → R a t) :
    Meets R x := by
  rcases hx with hx | ⟨a, t, rfl, ha⟩
  · exact .inl hx
  · exact .of_done (h a t ha)

end Ended.Meets

/-! ## Requests noted -/

/-- The requests made in a session, in order. -/
def Session.requests (s : Session σ) : List Call :=
  s.events.filterMap fun
    | .call _ c => some c
    | .capture _ _ => none

/-- The session is in time, and some more requests were made since. -/
def Session.Asked (d : Nat) (s : Session σ) (made : List Call) (t : Session σ) : Prop :=
  t.requests = s.requests ++ made ∧ t.now ≤ d

namespace Session

@[simp] theorem requests_awaited (w : World σ) (c : Call) (time : Nat) (s : Session σ) :
    (s.awaited w c time).requests = s.requests ++ [c] := by
  simp [requests]

@[simp] theorem requests_capture (s : Session σ) (on : Bool) :
    (s.capture on).requests = s.requests := by
  simp [requests, capture]

theorem requests_congr {s t : Session σ} (h : t.events = s.events) : t.requests = s.requests := by
  rw [requests, requests, h]

namespace Asked

variable {d : Nat} {s t u : Session σ} {made more : List Call}

theorem refl (hs : s.now ≤ d) : s.Asked d [] s :=
  ⟨(List.append_nil _).symm, hs⟩

theorem trans (h : s.Asked d made t) (h' : t.Asked d more u) : s.Asked d (made ++ more) u :=
  ⟨by rw [h'.1, h.1, List.append_assoc], h'.2⟩

theorem congr (h : s.Asked d made t) (hevents : u.events = t.events) (hnow : u.now = t.now) :
    s.Asked d made u :=
  ⟨(requests_congr hevents).trans h.1, hnow ▸ h.2⟩

end Asked

end Session

/-! ## Requests that succeed -/

section obliging

variable {w : World σ} {d : Nat} {s : Session σ}

theorem Session.ask_meets (hw : w.Obliging) {c : Call} {limit : Option Nat}
    (hlimit : ∀ l ∈ limit, ∃ timeout ∈ c.timeout?, l = timeout + Routine.grace) (hs : s.now ≤ d) :
    Ended.Meets (fun reply t => (∃ v, (w.answer s.page s.now c).outcome = .ok v ∧ reply = .ok v) ∧
      s.Asked d [c] t) (s.ask w (some d) c limit) := by
  obtain ⟨ms, v, hdelay, hv, hms⟩ := hw s.page s.now c
  have hwait : waitFor limit (some ms) = some (ms, true) := by
    cases limit with
    | none => rfl
    | some l =>
      obtain ⟨timeout, htimeout, rfl⟩ := hlimit l rfl
      exact if_pos (hms timeout htimeout)
  rw [ask, hdelay, hwait, hv]
  simp only
  by_cases hr : reaches w (some d) s.now (s.now + ms) = true
  · rw [if_pos hr]
    refine .of_done ⟨⟨v, rfl, rfl⟩, requests_awaited w c _ s, ?_⟩
    exact le_of_reaches (inTime_some.mpr hs) hr d rfl
  · rw [if_neg hr]
    exact .inl rfl

namespace Routine

theorem run_bind_meets {r : Routine α} {f : α → Routine β} {P : α → Session σ → Prop}
    {Q : β → Session σ → Prop} (hr : Ended.Meets P (r.run w (some d) s))
    (hf : ∀ a t, P a t → Ended.Meets Q ((f a).run w (some d) t)) :
    Ended.Meets Q ((r.bind f).run w (some d) s) := by
  rw [run_bind]
  exact hr.andThen hf

theorem request_meets (hw : w.Obliging) (c : Call) (hs : s.now ≤ d) :
    Ended.Meets (fun result t => (∃ v, result = .ok v) ∧ s.Asked d [c] t)
      ((request c).run w (some d) s) := by
  have hlimit : ∀ l ∈ (none : Option Nat), ∃ timeout ∈ c.timeout?, l = timeout + grace := by
    intro l hl
    cases hl
  rw [request, run_call]
  refine (s.ask_meets hw hlimit hs).andThen ?_
  rintro reply t ⟨⟨v, -, rfl⟩, hasked⟩
  exact .of_done ⟨⟨v, rfl⟩, hasked⟩

theorem bounded_meets (hw : w.Obliging) (operation : String) {timeout : Nat} {c : Call}
    (hc : c.timeout? = some timeout) (hs : s.now ≤ d) :
    Ended.Meets (fun result t =>
      (∃ v, (w.answer s.page s.now c).outcome = .ok v ∧ result = .ok v) ∧ s.Asked d [c] t)
      ((bounded operation timeout c).run w (some d) s) := by
  have hlimit : ∀ l ∈ some (timeout + grace), ∃ t ∈ c.timeout?, l = t + grace := by
    intro l hl
    exact ⟨timeout, hc, (Option.some.inj hl).symm⟩
  rw [bounded, run_call]
  refine (s.ask_meets hw hlimit hs).andThen ?_
  rintro reply t ⟨⟨v, hv, rfl⟩, hasked⟩
  exact .of_done ⟨⟨v, hv, rfl⟩, hasked⟩

theorem rest_meets (ms : Nat) (hs : s.now ≤ d) :
    Ended.Meets (fun _ t => s.Asked d [] t) ((rest ms).run w (some d) s) := by
  unfold rest
  split
  · exact .of_done (.refl hs)
  · simp only [run, Session.elapse]
    by_cases hr : Session.reaches w (some d) s.now (s.now + min Session.longest ms) = true
    · rw [if_pos hr]
      refine .of_done ⟨(List.append_nil _).symm, ?_⟩
      exact Session.le_of_reaches (Session.inTime_some.mpr hs) hr d rfl
    · rw [if_neg hr]
      exact .inl rfl

end Routine

end obliging

/-! ## Steps -/

namespace Step

open Routine

variable {w : World σ} {d : Nat} {s : Session σ}

/-- The requests that follow each action. -/
def Context.afterwards (x : Context) : List Call :=
  if x.evidence.isSome then [.screenshot true] else []

theorem takeScreenshot_meets (hw : w.Obliging) (folder : String) (index : Nat) (hs : s.now ≤ d) :
    Ended.Meets (fun _ t => s.Asked d [.screenshot true] t)
      ((takeScreenshot folder index).run w (some d) s) := by
  refine run_bind_meets (request_meets hw (.screenshot true) hs) ?_
  rintro result t ⟨⟨v, rfl⟩, hasked⟩
  simp only [keepScreenshot, run]
  by_cases hstores : w.stores t.page t.now (Evidence.file folder index) = true
  · rw [if_pos hstores]
    exact .of_done (hasked.congr rfl rfl)
  · rw [if_neg hstores]
    exact .of_done hasked

theorem close_meets (hw : w.Obliging) (x : Context) (index : Nat) (hs : s.now ≤ d) :
    Ended.Meets (fun _ t => s.Asked d x.afterwards t) ((close x index).run w (some d) s) := by
  have hrest : ∀ {shot : Routine (Option Screenshot)},
      Ended.Meets (fun _ t => s.Asked d x.afterwards t) (shot.run w (some d) s) →
      Ended.Meets (fun _ t => s.Asked d x.afterwards t)
        ((shot.bind fun a => (rest x.execution.settleDelay).bind fun _ => done a).run w (some d) s) := by
    intro shot hshot
    refine run_bind_meets hshot fun a t ht => run_bind_meets (rest_meets _ ht.2) ?_
    intro _ u hu
    have hall := ht.trans hu
    rw [List.append_nil] at hall
    exact .of_done hall
  unfold close
  refine hrest ?_
  unfold Context.afterwards
  cases x.evidence with
  | none => exact .of_done (.refl hs)
  | some folder => exact takeScreenshot_meets hw folder index hs

theorem store_meets (hw : w.Obliging) {x : Context} {hint name text locator : String}
    {others : List String} (hlocators : x.resolve hint .store = locator :: others)
    (htext : w.Reads locator text) (vars : Variables) (hs : s.now ≤ d) :
    Ended.Meets (fun p t => p = (.done, vars.set name text) ∧
        s.Asked d [.readText locator x.execution.candidateTimeout] t)
      ((perform x (.store (.implied hint) name) vars).run w (some d) s) := by
  have htarget : Ended.Meets (fun result t => result = .ok (.text text) ∧
        s.Asked d [.readText locator x.execution.candidateTimeout] t)
      ((onTarget x .store (.implied hint) .readText).run w (some d) s) := by
    simp only [onTarget, locators_implied, hlocators, attempts]
    refine run_bind_meets (bounded_meets hw _ rfl hs) ?_
    rintro result t ⟨⟨v, hv, rfl⟩, hasked⟩
    rw [htext _ _ _ _ hv]
    exact .of_done ⟨rfl, hasked⟩
  refine run_bind_meets htarget ?_
  rintro result t ⟨rfl, hasked⟩
  exact .of_done ⟨rfl, hasked⟩

theorem verify_meets (hw : w.Obliging) {x : Context} {hint locator : String} {others : List String}
    (hlocators : x.resolve hint .verify = locator :: others) (vars : Variables) (hs : s.now ≤ d) :
    Ended.Meets (fun p t => p = (.done, vars) ∧
        s.Asked d [.waitFor locator .visible x.execution.waitTimeout] t)
      ((perform x (.verify (.implied hint)) vars).run w (some d) s) := by
  have hpresent : Ended.Meets (fun verdict t => verdict = .done ∧
        s.Asked d [.waitFor locator .visible x.execution.waitTimeout] t)
      ((present x .verify (.implied hint) .visible
        ("verify " ++ (Target.implied hint).display)
        (.onElement .verify (.implied hint))).run w (some d) s) := by
    simp only [present, firstLocator?, locators_implied, hlocators, List.head?_cons]
    refine run_bind_meets (bounded_meets hw _ rfl hs) ?_
    rintro result t ⟨⟨v, -, rfl⟩, hasked⟩
    exact .of_done ⟨rfl, hasked⟩
  refine run_bind_meets hpresent ?_
  rintro verdict t ⟨rfl, hasked⟩
  exact .of_done ⟨rfl, hasked⟩

end Step

/-- The status of a step with a verdict. -/
def Verdict.status : Verdict → StepStatus
  | done | skipped _ => .pass
  | failed _ => .fail

/-- The note on a step with a verdict. -/
def Verdict.note? : Verdict → Option StepNote
  | skipped note => some note
  | done | failed _ => none

theorem StepResult.status_judged (x : StepResult) (v : Verdict) (now : Timestamp) (elapsed : Nat) :
    (x.judged v now elapsed).status = v.status := by
  cases v <;> rfl

theorem StepResult.note_judged (index : Nat) (description : String) (began now : Timestamp)
    (v : Verdict) (elapsed : Nat) :
    ((begun index description began).judged v now elapsed).note = v.note? := by
  cases v <;> rfl

namespace CaseRun

variable {w : World σ} {d : Nat} {s : Session σ}

/-- A step has the verdict of its action, and its requests are those of the action and of what
follows it. -/
theorem oneStep_meets (hw : w.Obliging) (r : CaseRunner) (caseId raw : String) (index : Nat)
    (vars vars' : Variables) (verdict : Verdict) (made : List Call) (hs : s.now ≤ d)
    (hperform : ∀ t : Session σ, t.now ≤ d →
      Ended.Meets (fun p u => p = (verdict, vars') ∧ t.Asked d made u)
        ((Step.perform (r.context caseId)
          (Sentence.classify r.rules (vars.substitute raw)) vars).run w (some d) t)) :
    Ended.Meets (fun p t => p.1.status = verdict.status ∧ p.1.note = verdict.note? ∧ p.2 = vars' ∧
        s.Asked d (made ++ (r.context caseId).afterwards) t)
      (oneStep r w (some d) caseId raw index vars s) := by
  have hbegin : s.Asked d [] (beginStep r w caseId index
      (Sentence.normalize (vars.substitute raw)) s) := (Session.Asked.refl hs).congr rfl rfl
  have hstep : Ended.Meets (fun p t => p.1.status = verdict.status ∧ p.1.note = verdict.note? ∧
        p.2 = vars' ∧ s.Asked d (made ++ (r.context caseId).afterwards) t)
      (runStep (r.context caseId) w (some d) index (Sentence.normalize (vars.substitute raw))
        (Sentence.classify r.rules (vars.substitute raw)) vars
        (beginStep r w caseId index (Sentence.normalize (vars.substitute raw)) s)) := by
    rw [runStep_eq]
    refine (hperform _ hbegin.2).andThen ?_
    rintro p t ⟨rfl, ht⟩
    refine (Step.close_meets hw (r.context caseId) index ht.2).andThen fun shot u hu => ?_
    refine .of_done ⟨StepResult.status_judged _ _ _ _, StepResult.note_judged _ _ _ _ _ _, rfl, ?_⟩
    have hall := hbegin.trans (ht.trans hu)
    rwa [List.nil_append] at hall
  refine hstep.andThen ?_
  rintro p t ⟨hstatus, hnote, hvars, hasked⟩
  refine .of_done ⟨hstatus, hnote, hvars, hasked.congr ?_ ?_⟩
  · simp [publish]
  · simp [publish]

end CaseRun

end PlainSteps
