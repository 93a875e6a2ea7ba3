import Mathlib.Data.List.Forall2
import PlainSteps.Proofs.Deadline
import PlainSteps.Proofs.RunPhases

/-!
# Cases do not affect one another

`CaseRun.cases_isolated`: on a browser on which what a request does depends on the request only, each
case of a list has the result, up to its dates, that it has alone.

A case takes three things over from those before it: the page, the time, and the log of responses. The
page does not matter here, the log is a new one, and the time shifts all that happens by the same amount.
So two sessions in which a case is carried out stay alike (`Session.Alike`) over requests
(`Session.ask_alike`), routines, steps and cases, as long as nothing cuts them short. What is cut short is
told by the times at which the steps end (`carried_cut`), and these are shifted as well.
-/

namespace PlainSteps

variable {σ α β : Type}

/-! ## Browsers without a memory -/

/-- What a request does depends on the request only, and whether a file can be written on its path. -/
structure World.Memoryless (w : World σ) : Prop where
  delay : ∀ page page' now now' c, (w.answer page now c).delay = (w.answer page' now' c).delay
  outcome : ∀ page page' now now' c, (w.answer page now c).outcome = (w.answer page' now' c).outcome
  exchanges : ∀ page page' now now' c,
    (w.answer page now c).exchanges = (w.answer page' now' c).exchanges
  stores : ∀ page page' now now' path, w.stores page now path = w.stores page' now' path

/-! ## Results without dates -/

namespace Timestamp

/-- The start of 1970. -/
def epoch : Timestamp := ⟨0, 0⟩

end Timestamp

/-- A response without the moment at which it was noted. -/
def NetworkEntry.undated (e : NetworkEntry) : NetworkEntry :=
  { e with timestamp := .epoch }

/-- The result of a step without the moments at which it began and ended and responses were noted. -/
def StepResult.undated (x : StepResult) : StepResult :=
  { x with
    startedAt := .epoch
    finishedAt := x.finishedAt.map fun _ => .epoch
    network := x.network.map (·.map (·.undated)) }

/-- The result of a case without the moments at which it and its steps began and ended. -/
def CaseResult.undated (x : CaseResult) : CaseResult :=
  { x with
    steps := x.steps.map (·.undated)
    startedAt := .epoch
    finishedAt := .epoch }

/-! ## Sessions -/

namespace Session

/-- The responses in the log, without dates. -/
def noted (s : Session σ) : Option (List NetworkEntry) :=
  s.network.map fun log => log.entries.map (·.undated)

/-- The one session has come as far since one time as the other since another, and has noted the same
responses. -/
structure Alike (a b : Nat) (s t : Session σ) : Prop where
  now : ∃ ms, s.now = a + ms ∧ t.now = b + ms
  noted : s.noted = t.noted

variable {a b : Nat} {s t : Session σ} {w : World σ}

theorem alike_capture (s t : Session σ) (on : Bool) :
    (s.capture on).Alike s.now t.now (t.capture on) :=
  ⟨⟨0, rfl, rfl⟩, rfl⟩

theorem Alike.made (h : s.Alike a b t) (c : Call) : (s.made w c).Alike a b (t.made w c) :=
  ⟨h.now, h.noted⟩

theorem Alike.write (h : s.Alike a b t) (path : String) (bytes : List UInt8) :
    (s.write path bytes).Alike a b (t.write path bytes) :=
  ⟨h.now, h.noted⟩

theorem Alike.publish (h : s.Alike a b t) (p q : Progress) :
    (s.publish p).Alike a b (t.publish q) :=
  ⟨h.now, h.noted⟩

theorem Alike.later (h : s.Alike a b t) (ms : Nat) :
    ({ s with now := s.now + ms } : Session σ).Alike a b { t with now := t.now + ms } := by
  obtain ⟨n, hs, ht⟩ := h.now
  refine ⟨⟨n + ms, ?_, ?_⟩, h.noted⟩
  · simp only [hs, Nat.add_assoc]
  · simp only [ht, Nat.add_assoc]

theorem Alike.awaited (hm : w.Memoryless) (h : s.Alike a b t) (c : Call) (ms : Nat) :
    (s.awaited w c (s.now + ms)).Alike a b (t.awaited w c (t.now + ms)) := by
  refine ⟨(h.later ms).now, ?_⟩
  have hseen : ∀ u : Session σ, (u.awaited w c (u.now + ms)).noted =
      u.noted.map (· ++ ((w.answer u.page u.now c).exchanges.filter fun e => e.1 ≤ ms).map
        fun e => (⟨e.2, .epoch⟩ : NetworkEntry)) := by
    intro u
    have hfilter : ((w.answer u.page u.now c).exchanges.filter fun e => u.now + e.1 ≤ u.now + ms) =
        (w.answer u.page u.now c).exchanges.filter fun e => e.1 ≤ ms := by
      simp only [Nat.add_le_add_iff_left]
    simp only [Session.awaited, receive, Session.made, Session.noted, Option.map_map, hfilter]
    congr 1
    funext log
    simp [NetworkEntry.undated, Function.comp_def]
  rw [hseen, hseen, h.noted, hm.exchanges]

theorem Alike.drain (h : s.Alike a b t) :
    s.drain.1.map (·.map (·.undated)) = t.drain.1.map (·.map (·.undated)) ∧
      s.drain.2.Alike a b t.drain.2 := by
  have hdrain : ∀ u : Session σ, u.drain.1.map (·.map (·.undated)) = u.noted ∧
      u.drain.2.noted = u.noted.map fun _ => [] := by
    intro u
    cases hlog : u.network <;> simp [Session.drain, Session.noted, hlog, NetworkLog.drain, NetworkLog.empty]
  refine ⟨?_, ⟨?_, ?_⟩⟩
  · rw [(hdrain s).1, (hdrain t).1, h.noted]
  · rw [drain_now, drain_now]
    exact h.now
  · rw [(hdrain s).2, (hdrain t).2, h.noted]

theorem Alike.elapsed {s' t' : Session σ} (h : s.Alike a b t) (h' : s'.Alike a b t') :
    s'.now - s.now = t'.now - t.now := by
  obtain ⟨n, hs, ht⟩ := h.now
  obtain ⟨n', hs', ht'⟩ := h'.now
  omega

end Session

/-! ## Requests and routines -/

/-- Two ends are alike: results that are related, or the same halt, in sessions that are alike. -/
inductive Ended.Alike (R : α → β → Prop) (a b : Nat) :
    Ended α × Session σ → Ended β × Session σ → Prop
  | done {p : α} {q : β} {s t : Session σ} (hpq : R p q) (h : s.Alike a b t) :
    Ended.Alike R a b (.done p, s) (.done q, t)
  | halted {halt : Halt} {s t : Session σ} (h : s.Alike a b t) :
    Ended.Alike R a b (.halted halt, s) (.halted halt, t)

section

variable {w : World σ} {a b : Nat} {s t : Session σ}

theorem Ended.Alike.andThen {γ δ : Type} {R : α → β → Prop} {S : γ → δ → Prop}
    {x : Ended α × Session σ} {y : Ended β × Session σ} {f : α → Session σ → Ended γ × Session σ}
    {g : β → Session σ → Ended δ × Session σ} (h : Alike R a b x y)
    (hfg : ∀ p q s t, R p q → s.Alike a b t → Alike S a b (f p s) (g q t)) :
    Alike S a b (andThen x f) (andThen y g) := by
  cases h with
  | done hpq h => exact hfg _ _ _ _ hpq h
  | halted h => exact .halted h

theorem Session.ask_alike (hm : w.Memoryless) (h : s.Alike a b t) (c : Call) (limit : Option Nat) :
    Ended.Alike Eq a b (s.ask w none c limit) (t.ask w none c limit) := by
  simp only [ask, hm.delay s.page t.page s.now t.now, hm.outcome s.page t.page s.now t.now]
  rcases waitFor limit (w.answer t.page t.now c).delay with _ | ⟨ms, ended⟩
  · exact .halted (h.made c)
  · simp only [reaches_none, if_true]
    have hlater := h.awaited hm c ms
    cases ended with
    | false => exact .done rfl hlater
    | true =>
      simp only [if_true]
      cases (w.answer t.page t.now c).outcome with
      | ok v => exact .done rfl hlater
      | failed e => exact .done rfl hlater
      | breakdown b => exact .halted hlater

/-- Without a deadline a routine does the same in sessions that are alike. -/
theorem Routine.run_alike (hm : w.Memoryless) (r : Routine α) (h : s.Alike a b t) :
    Ended.Alike Eq a b (r.run w none s) (r.run w none t) := by
  induction r generalizing s t with
  | done p => exact .done rfl h
  | call c limit next ih =>
    rw [run_call, run_call]
    refine (Session.ask_alike hm h c limit).andThen ?_
    rintro reply _ s t rfl h
    exact ih reply h
  | pause ms next ih =>
    simp only [run, Session.elapse, Session.reaches_none, if_true]
    exact ih (h.later _)
  | save path bytes next ih =>
    simp only [run, hm.stores s.page t.page s.now t.now]
    split
    · exact ih true (h.write path bytes)
    · exact ih false h

end

/-! ## Steps -/

theorem StepResult.undated_judged (index : Nat) (description : String) (v : Verdict) (elapsed : Nat)
    (screenshot : Option Screenshot) (m m' n n' : Timestamp) :
    { (StepResult.begun index description m).judged v n elapsed with screenshot }.undated =
      { (StepResult.begun index description m').judged v n' elapsed with screenshot }.undated := by
  cases v <;> rfl

theorem StepResult.undated_network {x y : StepResult} (h : x.undated = y.undated)
    {network network' : Option (List NetworkEntry)}
    (hnetwork : network.map (·.map (·.undated)) = network'.map (·.map (·.undated))) :
    { x with network }.undated = { y with network := network' }.undated := by
  simp only [undated, mk.injEq] at h
  simp only [undated, h, hnetwork]

namespace CaseRun

variable {r : CaseRunner} {w : World σ} {a b : Nat} {s t : Session σ}

/-- The results of a step are the same up to their dates, and the variables after it are. -/
def SameStep (p q : StepResult × Variables) : Prop :=
  p.1.undated = q.1.undated ∧ p.2 = q.2

theorem runStep_alike (hm : w.Memoryless) (x : Step.Context) (index : Nat) (description : String)
    (action : Action) (vars : Variables) (h : s.Alike a b t) :
    Ended.Alike SameStep a b (runStep x w none index description action vars s)
      (runStep x w none index description action vars t) := by
  rw [runStep_eq, runStep_eq]
  refine (Routine.run_alike hm _ h).andThen ?_
  rintro p _ s₁ t₁ rfl h₁
  refine (Routine.run_alike hm _ h₁).andThen ?_
  rintro screenshot _ s₂ t₂ rfl h₂
  refine .done ⟨?_, rfl⟩ h₂
  rw [h.elapsed h₁]
  exact StepResult.undated_judged _ _ _ _ _ _ _ _ _

theorem oneStep_alike (hm : w.Memoryless) (caseId raw : String) (index : Nat) (vars : Variables)
    (h : s.Alike a b t) :
    Ended.Alike SameStep a b (oneStep r w none caseId raw index vars s)
      (oneStep r w none caseId raw index vars t) := by
  refine (runStep_alike hm _ index _ _ vars (h.publish _ _)).andThen ?_
  rintro ⟨x, vars'⟩ ⟨y, _⟩ s₁ t₁ ⟨hxy, rfl⟩ h₁
  obtain ⟨hnetwork, h₂⟩ := h₁.drain
  exact .done ⟨StepResult.undated_network hxy hnetwork, rfl⟩ (h₂.publish _ _)

theorem isFail_congr {x y : StepResult} (h : x.undated = y.undated) : x.isFail = y.isFail := by
  have hstatus : x.status = y.status := congrArg (·.status) h
  rw [StepResult.isFail, StepResult.isFail, hstatus]

/-- The steps of a case that nothing cuts short, in sessions that are alike. -/
theorem runSteps_alike (hm : w.Memoryless) (caseId : String) (raws : List String) (index : Nat)
    (vars : Variables) (h : s.Alike a b t) :
    (runSteps r w none caseId raws index vars s).ending =
        (runSteps r w none caseId raws index vars t).ending ∧
      (runSteps r w none caseId raws index vars s).session.Alike a b
        (runSteps r w none caseId raws index vars t).session := by
  induction raws generalizing index vars s t with
  | nil => exact ⟨rfl, h⟩
  | cons raw rest ih =>
    rw [runSteps_cons, runSteps_cons]
    have hstep := oneStep_alike (r := r) hm caseId raw index vars h
    generalize oneStep r w none caseId raw index vars s = x at hstep ⊢
    generalize oneStep r w none caseId raw index vars t = y at hstep ⊢
    cases hstep with
    | halted h => exact ⟨rfl, h⟩
    | @done p q s₁ t₁ hpq h =>
      obtain ⟨x, vars'⟩ := p
      obtain ⟨y, _⟩ := q
      obtain ⟨hxy, rfl⟩ := hpq
      simp only [isFail_congr hxy]
      split
      · exact ⟨rfl, h⟩
      · exact ih (index + 1) vars' h

/-- Steps that end as far from the one time as from the other, with the same results up to dates. -/
def SameEnd (a b : Nat) (e f : StepResult × Nat) : Prop :=
  e.1.undated = f.1.undated ∧ ∃ ms, e.2 = a + ms ∧ f.2 = b + ms

theorem exists_sameEnd_of_mem {ends ends' : List (StepResult × Nat)}
    (h : List.Forall₂ (SameEnd a b) ends ends') {e : StepResult × Nat} (he : e ∈ ends) :
    ∃ f ∈ ends', SameEnd a b e f := by
  induction h with
  | nil => cases he
  | cons hef _ ih =>
    rcases List.mem_cons.mp he with rfl | he
    · exact ⟨_, List.mem_cons_self, hef⟩
    · obtain ⟨f, hf, hef⟩ := ih he
      exact ⟨f, List.mem_cons_of_mem _ hf, hef⟩

theorem timeline_alike (hm : w.Memoryless) (caseId : String) (raws : List String) (index : Nat)
    (vars : Variables) (h : s.Alike a b t) :
    List.Forall₂ (SameEnd a b) (timeline r w caseId raws index vars s)
      (timeline r w caseId raws index vars t) := by
  induction raws generalizing index vars s t with
  | nil => exact .nil
  | cons raw rest ih =>
    rw [timeline, timeline]
    have hstep := oneStep_alike (r := r) hm caseId raw index vars h
    generalize oneStep r w none caseId raw index vars s = x at hstep ⊢
    generalize oneStep r w none caseId raw index vars t = y at hstep ⊢
    cases hstep with
    | halted h => exact .nil
    | @done p q s₁ t₁ hpq h =>
      obtain ⟨x, vars'⟩ := p
      obtain ⟨y, _⟩ := q
      obtain ⟨hxy, rfl⟩ := hpq
      refine .cons ⟨hxy, h.now⟩ ?_
      simp only [isFail_congr hxy]
      split
      · exact .nil
      · exact ih (index + 1) vars' h

theorem mem_timeline_of_done {caseId : String} {raws : List String} (hne : raws ≠ []) {index : Nat}
    {vars : Variables} {termination : Termination}
    (h : (runSteps r w none caseId raws index vars s).ending = .done termination) :
    ∃ e ∈ timeline r w caseId raws index vars s,
      e.2 = (runSteps r w none caseId raws index vars s).session.now := by
  induction raws generalizing index vars s with
  | nil => exact absurd rfl hne
  | cons raw rest ih =>
    rw [runSteps_cons] at h ⊢
    rw [timeline]
    rcases hstep : oneStep r w none caseId raw index vars s with ⟨⟨result, vars'⟩ | halt, t⟩
    · simp only [hstep] at h ⊢
      by_cases hfail : result.isFail = true
      · simp only [if_pos hfail]
        exact ⟨_, List.mem_singleton_self _, rfl⟩
      · simp only [if_neg hfail] at h ⊢
        by_cases hrest : rest = []
        · subst hrest
          exact ⟨_, List.mem_cons_self, rfl⟩
        · obtain ⟨e, he, hlast⟩ := ih hrest h
          exact ⟨e, List.mem_cons_of_mem _ he, hlast⟩
    · rw [hstep] at h
      cases h

/-! ## Deadlines -/

theorem endedBefore_alike {ends ends' : List (StepResult × Nat)} (ms : Nat)
    (h : List.Forall₂ (SameEnd a b) ends ends') :
    (endedBefore (a + ms) ends).map (·.undated) = (endedBefore (b + ms) ends').map (·.undated) := by
  induction h with
  | nil => rfl
  | @cons e f ends ends' hef _ ih =>
    obtain ⟨hresult, n, he, hf⟩ := hef
    have hiff : e.2 < a + ms ↔ f.2 < b + ms := by omega
    by_cases hlt : e.2 < a + ms
    · rw [endedBefore_cons_of_lt _ hlt, endedBefore_cons_of_lt _ (hiff.mp hlt), List.map_cons,
        List.map_cons, hresult, ih]
    · have hlt' : ¬f.2 < b + ms := fun h => hlt (hiff.mpr h)
      simpa [endedBefore, hlt, hlt'] using ih

end CaseRun

theorem Routine.now_of_cut {w : World σ} {d : Nat} {r : Routine α} {s t : Session σ} (hs : s.now ≤ d)
    (e : r.run w (some d) s = (.halted .deadline, t)) : t.now = d := by
  induction r generalizing s with
  | done a => cases e
  | call c limit next ih =>
    rw [run_call] at e
    rcases s.ask_cases w (some d) c limit (Session.inTime_some.mpr hs) with
      ⟨h, -⟩ | ⟨d', hd, hask⟩ | ⟨time, x, -, hle, hx, hask⟩
    · cases h
    · obtain rfl : d = d' := Option.some.inj hd
      rw [hask] at e
      cases e
      rfl
    · rw [hask] at e
      rcases x with reply | halt
      · have htime : (s.awaited w c time).now ≤ d := hle d rfl
        exact ih reply htime e
      · rcases hx with hx | hx
        · cases hx
        · obtain ⟨b, rfl, -⟩ := Outcome.ended_halted hx.symm
          cases e
  | pause ms next ih =>
    simp only [run, Session.elapse] at e
    by_cases hr : Session.reaches w (some d) s.now (s.now + min Session.longest ms) = true
    · rw [if_pos hr] at e
      exact ih (Session.le_of_reaches (Session.inTime_some.mpr hs) hr d rfl) e
    · rw [if_neg hr] at e
      cases e
      rfl
  | save path bytes next ih =>
    have hwrite : (s.write path bytes).now ≤ d := hs
    simp only [run] at e
    split at e
    · exact ih true hwrite e
    · exact ih false hs e

namespace CaseRun

variable {r : CaseRunner} {w : World σ} {s t : Session σ}

theorem now_of_oneStep_cut {d : Nat} {caseId raw : String} {index : Nat} {vars : Variables}
    (hs : s.now ≤ d)
    (e : oneStep r w (some d) caseId raw index vars s = (.halted .deadline, t)) : t.now = d := by
  have hbegin : (beginStep r w caseId index (Sentence.normalize (vars.substitute raw)) s).now ≤ d := hs
  rcases oneStep_eq_halted e with e | ⟨p, t₁, e₁, e₂⟩
  · exact Routine.now_of_cut hbegin e
  · have h₁ := Routine.inTime_of_run (Session.inTime_some.mpr hbegin) e₁
    exact Routine.now_of_cut (Session.inTime_some.mp h₁) e₂

theorem now_of_runSteps_cut {d : Nat} {caseId : String} {raws : List String} {index : Nat}
    {vars : Variables} (hs : s.now ≤ d)
    (h : (runSteps r w (some d) caseId raws index vars s).ending = .halted .deadline) :
    (runSteps r w (some d) caseId raws index vars s).session.now = d := by
  induction raws generalizing index vars s with
  | nil => cases h
  | cons raw rest ih =>
    rw [runSteps_cons] at h ⊢
    rcases hstep : oneStep r w (some d) caseId raw index vars s with ⟨⟨result, vars'⟩ | halt, t⟩
    · simp only [hstep] at h ⊢
      split at h
      · cases h
      · rename_i hfail
        simp only [if_neg hfail]
        have ht := (oneStep_done (Session.inTime_some.mpr hs) hstep).2.2
        exact ih (Session.inTime_some.mp ht) h
    · simp only [hstep] at h ⊢
      cases h
      exact now_of_oneStep_cut hs hstep

theorem now_of_carried_cut {c : TestCase} (h : (carried r w c s).ending = .halted .deadline) :
    (carried r w c s).session.now = deadline r s := by
  unfold carried at h ⊢
  split
  · rename_i hbegun
    rw [if_pos hbegun] at h
    exact now_of_runSteps_cut (now_le_deadline r s) h
  · rename_i hover
    simp only [Bool.or_eq_true, decide_eq_true_eq, not_or] at hover
    exact Nat.le_antisymm (now_le_deadline r s) (Nat.le_of_not_lt hover.1)

/-! ## Cases -/

section

variable {c : TestCase}

theorem ends_alike (hm : w.Memoryless) (c : TestCase) (s t : Session σ) :
    List.Forall₂ (SameEnd s.now t.now) (ends r w c s) (ends r w c t) :=
  timeline_alike hm c.id c.steps 0 .empty (Session.alike_capture s t _)

theorem uncut_alike (hm : w.Memoryless) (c : TestCase) (s t : Session σ) :
    (uncut r w c s).ending = (uncut r w c t).ending ∧
      (uncut r w c s).session.Alike s.now t.now (uncut r w c t).session :=
  runSteps_alike hm c.id c.steps 0 .empty (Session.alike_capture s t _)

/-- No step of the case ends at the very deadline, and a case without steps has some time. -/
structure NoTie (r : CaseRunner) (w : World σ) (c : TestCase) (s : Session σ) : Prop where
  ends : ∀ e ∈ ends r w c s, e.2 ≠ deadline r s
  time : c.steps = [] → 0 < r.execution.caseTimeoutSecs

theorem noTie_of_times {times : List Nat} (hends : (ends r w c s).map (·.2) = times)
    (hne : c.steps ≠ []) (hdue : deadline r s ∉ times) : NoTie r w c s where
  ends := by
    intro e he heq
    rw [← hends, ← heq] at hdue
    exact hdue (List.mem_map_of_mem he)
  time := fun h => absurd h hne

theorem NoTie.congr (hm : w.Memoryless) (h : NoTie r w c t) (s : Session σ) : NoTie r w c s := by
  refine ⟨fun e he heq => ?_, h.time⟩
  obtain ⟨f, hf, -, ms, hs, ht⟩ := exists_sameEnd_of_mem (ends_alike hm c s t) he
  refine h.ends f hf ?_
  simp only [deadline] at heq ⊢
  omega

theorem NoTie.uncut_ne (hw : w.Calm) (h : NoTie r w c s)
    (hstuck : (uncut r w c s).ending ≠ .halted .stuck) :
    (uncut r w c s).session.now ≠ deadline r s := by
  by_cases hne : c.steps = []
  · have hnow : (uncut r w c s).session.now = s.now := by
      rw [uncut, hne, runSteps_nil, Session.capture_now]
    rw [hnow]
    exact Nat.ne_of_lt (now_lt_deadline (h.time hne) s)
  · rcases hend : (uncut r w c s).ending with termination | halt
    · obtain ⟨e, he, hlast⟩ := mem_timeline_of_done hne hend
      rw [uncut, ← hlast]
      exact h.ends e he
    · have hexplained := runSteps_halted (Session.inTime_none _) hend
      rcases hexplained.of_calm hw with ⟨hnone, -⟩ | ⟨-, rfl⟩
      · exact absurd rfl hnone
      · exact absurd hend hstuck

/-- A case records the same steps, up to their dates, in any two sessions, ends alike, and takes the
same time. -/
theorem carried_alike (hw : w.Calm) (hm : w.Memoryless) (hs : NoTie r w c s) (ht : NoTie r w c t) :
    (carried r w c s).steps.map (·.undated) = (carried r w c t).steps.map (·.undated) ∧
      (carried r w c s).ending = (carried r w c t).ending ∧
      ∃ ms, (carried r w c s).session.now = s.now + ms ∧
        (carried r w c t).session.now = t.now + ms := by
  obtain ⟨hsteps, hcut⟩ := carried_cut r w c s (T := r.execution.caseTimeoutSecs) hs.ends
  obtain ⟨hsteps', hcut'⟩ := carried_cut r w c t (T := r.execution.caseTimeoutSecs) ht.ends
  have hwithin : r.within r.execution.caseTimeoutSecs = r := rfl
  rw [hwithin] at hsteps hsteps' hcut hcut'
  obtain ⟨hending, halike⟩ := uncut_alike (r := r) hm c s t
  obtain ⟨ms, hnow, hnow'⟩ := halike.now
  refine ⟨?_, ?_⟩
  · rw [hsteps, hsteps']
    exact endedBefore_alike _ (ends_alike hm c s t)
  · rcases hcut with ⟨heq, hle, hstuck⟩ | ⟨hhalt, hlate⟩
    · rcases hcut' with ⟨heq', -⟩ | ⟨-, hlate'⟩
      · rw [heq, heq']
        exact ⟨hending, ms, hnow, hnow'⟩
      · have hne := hs.uncut_ne hw hstuck
        rcases hlate' with hstuck' | hlate'
        · exact absurd (hending.trans hstuck') hstuck
        · simp only [deadline] at hle hne hlate'
          omega
    · rcases hcut' with ⟨heq', hle', hstuck'⟩ | ⟨hhalt', -⟩
      · have hne := ht.uncut_ne hw hstuck'
        rcases hlate with hstuck | hlate
        · exact absurd (hending.symm.trans hstuck) hstuck'
        · simp only [deadline] at hle' hne hlate
          omega
      · refine ⟨hhalt.trans hhalt'.symm, min Session.longest r.execution.caseTimeout, ?_, ?_⟩
        · exact now_of_carried_cut hhalt
        · exact now_of_carried_cut hhalt'

end

/-! ## Results of cases -/

theorem undated_ofSteps (c : TestCase) (steps : List StepResult) (termination : Termination)
    (error : Option String) (m n : Timestamp) (elapsed : Nat) :
    (CaseResult.ofSteps c steps termination error m n elapsed).undated =
      .ofSteps c (steps.map (·.undated)) termination error .epoch .epoch elapsed := by
  have hpass : StepResult.isPass ∘ StepResult.undated = StepResult.isPass := rfl
  have hfail : StepResult.isFail ∘ StepResult.undated = StepResult.isFail := rfl
  simp only [CaseResult.ofSteps, CaseResult.undated, CaseSummary.ofSteps, List.countP_map, hpass,
    hfail, List.length_map]

/-- The result that a case has when it is carried out in a session, without its dates. -/
def outcome (r : CaseRunner) (w : World σ) (s : Session σ) (c : TestCase) : Option CaseResult :=
  match run r w c s with
  | (.done x, _) => some x.undated
  | (.halted _, _) => none

theorem run_alike (hw : w.Calm) (hm : w.Memoryless) {c : TestCase} (hs : NoTie r w c s)
    (ht : NoTie r w c t) : outcome r w s c = outcome r w t c := by
  obtain ⟨hsteps, hending, ms, hnow, hnow'⟩ := carried_alike hw hm hs ht
  have helapsed : (carried r w c s).session.now - s.now = (carried r w c t).session.now - t.now := by
    omega
  have hsame : ∀ termination error,
      (CaseResult.ofSteps c (carried r w c s).steps termination error (s.moment w)
          (((carried r w c s).session.capture false).moment w)
          ((carried r w c s).session.now - s.now)).undated =
        (CaseResult.ofSteps c (carried r w c t).steps termination error (t.moment w)
          (((carried r w c t).session.capture false).moment w)
          ((carried r w c t).session.now - t.now)).undated := by
    intro termination error
    rw [undated_ofSteps, undated_ofSteps, hsteps, helapsed]
  simp only [outcome, run_eq, hending]
  rcases (carried r w c t).ending with termination | halt
  · exact congrArg some (hsame termination none)
  · cases halt with
    | deadline => exact congrArg some (hsame .timedOut _)
    | breakdown b => rfl
    | stuck => rfl

/-- In a list of cases, each has the result that it has alone, but for its dates. -/
theorem cases_isolated (hw : w.Calm) (hm : w.Memoryless) {cases : List TestCase} (s : Session σ)
    (htie : ∀ c ∈ cases, NoTie r w c s) :
    ∀ order : List TestCase, (∀ c ∈ order, c ∈ cases) → ∀ t : Session σ,
      (Run.runCases r w order t).2.1 = none ∧
      (Run.runCases r w order t).1.map (fun x => some x.undated) = order.map (outcome r w s) := by
  intro order
  induction order with
  | nil => exact fun _ t => ⟨rfl, rfl⟩
  | cons c order ih =>
    intro horder t
    obtain ⟨hc, horder⟩ := List.forall_mem_cons.mp horder
    have hsame := run_alike hw hm ((htie c hc).congr hm t) (htie c hc)
    obtain ⟨x, u, hrun⟩ := run_done_of_calm r hw c t
    obtain ⟨hhalt, hresults⟩ := ih horder u
    rw [Run.runCases_cons, hrun]
    refine ⟨hhalt, ?_⟩
    rw [List.map_cons, List.map_cons, hresults, ← hsame, outcome, hrun]

end CaseRun

/-! ## Scripted browsers -/

namespace Browser

theorem pick_congr {c : Call} {rules : List Rule} (h : ∀ r ∈ rules, r.times = none)
    (uses uses' : List Nat) : (pick c rules uses).1 = (pick c rules uses').1 := by
  induction rules generalizing uses uses' with
  | nil => rfl
  | cons r rules ih =>
    obtain ⟨hr, hrules⟩ := List.forall_mem_cons.mp h
    simp only [pick, hr]
    split
    · rfl
    · exact ih hrules _ _

theorem Script.memoryless_world {p : Script} (h : ∀ r ∈ p.rules, r.times = none) (blocked : Bool)
    (opening : Timestamp) : (p.world blocked opening).Memoryless := by
  have hpick := fun uses uses' c => pick_congr (c := c) h uses uses'
  refine ⟨?_, ?_, ?_, fun _ _ _ _ _ => rfl⟩
  · intro uses uses' now now' c
    simp only [world, answer, hpick uses uses']
  · intro uses uses' now now' c
    simp only [world, answer, hpick uses uses']
  · intro uses uses' now now' c
    simp only [world, answer, hpick uses uses']

end Browser

namespace CaseRun

/-- A page on which reading a text brings about a response and no click ever ends. -/
def stubborn : Browser.Script where
  rules := [⟨"click", "*", none, 0, .hang⟩]
  texts := [("css=h1", "Welcome")]
  echoes := [⟨"read_text", "*", ⟨"https://x.test/h1", "GET", 200, 3⟩⟩]
  screenshot := []

/-- A case that stores a text and is cut at a click, and one that would use the text, in both orders. -/
theorem cases_isolated_stubborn :
    let r : CaseRunner := { CaseRunner.ofSettings {} StopWords.usual.resolver "run" "https://x.test/"
      with evidence := { captureScreenshots := false, captureNetwork := true } }.within 5
    let w := stubborn.world false ⟨0, 0⟩
    let cut : TestCase := { id := "cut", steps := ["Store text from \"h1\" as \"t\"", "Click \"Buy\""] }
    let check : TestCase := { id := "check", steps := ["Verify \"{t}\""] }
    let s : Session (List Nat) := { page := [] }
    (outcome r w s cut).map (·.termination) = some .timedOut ∧
      (Run.runCases r w [cut, check] s).1.map (fun x => some x.undated) =
        [outcome r w s cut, outcome r w s check] ∧
      (Run.runCases r w [check, cut] s).1.map (fun x => some x.undated) =
        [outcome r w s check, outcome r w s cut] := by
  intro r w cut check s
  have hw : w.Calm := Browser.Script.calm_world (by simp [stubborn]) _ _
  have hm : w.Memoryless := Browser.Script.memoryless_world (by simp [stubborn]) _ _
  have hcut : (ends r w cut s).map (·.2) = [500, 25000] := by decide +kernel
  have hcheck : (ends r w check s).map (·.2) = [500] := by decide +kernel
  have htie : ∀ c ∈ [cut, check], NoTie r w c s := by
    simp only [List.forall_mem_cons]
    refine ⟨noTie_of_times hcut (by simp [cut]) (by decide +kernel),
      noTie_of_times hcheck (by simp [check]) (by decide +kernel), by simp⟩
  refine ⟨by decide +kernel, ?_, ?_⟩
  · exact (cases_isolated hw hm s htie [cut, check] (fun _ h => h) s).2
  · exact (cases_isolated hw hm s htie [check, cut] (by simp) s).2

end CaseRun

end PlainSteps
