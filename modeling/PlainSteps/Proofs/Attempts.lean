import Mathlib.Data.List.Chain
import PlainSteps.Proofs.ObligingBrowser
import PlainSteps.Proofs.RequestTrace

/-!
# Requests that are given up

A request to the page has a time limit that the browser observes, and is given up a second later
(`Routine.bounded`), so that it comes to an end even on a browser that never answers.

* `Attempt` : a request as it was carried out, with what came of it.
* `Attempt.Ends` : it is answered before it is given up, or it is given up.
* `Series` : attempts made one after the other, the first from one session, the last up to another.
* `Routine.attempted` : the attempts of a routine that is carried out without a deadline.
* `Routine.ask_run` : on a calm browser, a request that is given up is a series of one attempt.
* `CaseRun.runStep_uncut` : what is recorded of a step under a deadline is recorded without one.
-/

namespace PlainSteps

variable {σ α β : Type}

/-- A request as it was carried out, with what came of it. -/
structure Attempt (σ : Type) extends Request σ where
  reply : Reply

/-! ## Series -/

/-- How an attempt ends that has a time limit. -/
inductive Attempt.Ends (w : World σ) (timeout : Nat) (q : Attempt σ) : Prop
  | answered {ms : Nat} (hdelay : (w.answer q.page q.time q.call).delay = some ms)
      (hms : ms ≤ min Session.longest (timeout + Routine.grace))
      (hreply : (w.answer q.page q.time q.call).outcome.ended = .done q.reply)
      (hended : q.ended = q.time + ms)
  | givenUp (hdelay : ∀ ms ∈ (w.answer q.page q.time q.call).delay,
        min Session.longest (timeout + Routine.grace) < ms)
      (hreply : q.reply = .late)
      (hended : q.ended = q.time + min Session.longest (timeout + Routine.grace))

/-- Attempts made one after the other from one session on, up to another. -/
inductive Series (w : World σ) : List (Attempt σ) → Session σ → Session σ → Prop
  | nil (s : Session σ) : Series w [] s s
  | cons {q : Attempt σ} {qs : List (Attempt σ)} {s t : Session σ} {timeout : Nat}
      (hpage : q.page = s.page) (htime : q.time = s.now) (htimeout : q.call.timeout? = some timeout)
      (hends : q.Ends w timeout) (h : Series w qs (s.awaited w q.call q.ended) t) :
      Series w (q :: qs) s t

theorem Attempt.Ends.time_le {w : World σ} {timeout : Nat} {q : Attempt σ} (h : q.Ends w timeout) :
    q.time ≤ q.ended ∧ q.ended ≤ q.time + timeout + Routine.grace := by
  rcases h with ⟨_, hms, _, hended⟩ | ⟨_, _, hended⟩
  · omega
  · omega

namespace Series

variable {w : World σ} {qs qs' : List (Attempt σ)} {s t u : Session σ}

theorem append (h : Series w qs s t) (h' : Series w qs' t u) : Series w (qs ++ qs') s u := by
  induction h with
  | nil s => exact h'
  | cons hpage htime htimeout hends _ ih => exact .cons hpage htime htimeout hends (ih h')

theorem events (h : Series w qs s t) : t.events = s.events ++ qs.map (·.event) := by
  induction h with
  | nil s => simp
  | cons hpage htime htimeout hends _ ih =>
    rw [ih, Session.awaited_events, List.map_cons, List.append_assoc, Request.event, htime]
    rfl

theorem times (h : Series w qs s t) :
    qs.IsChain (fun q q' => q'.time = q.ended) ∧ (∀ q ∈ qs.head?, q.time = s.now) ∧
      t.now = (qs.getLast?.map (·.ended)).getD s.now := by
  induction h with
  | nil s => exact ⟨.nil, by simp, rfl⟩
  | @cons q qs s t timeout hpage htime htimeout hends _ ih =>
    obtain ⟨hchain, hfirst, hlast⟩ := ih
    refine ⟨?_, by simp [htime], ?_⟩
    · cases qs with
      | nil => exact .singleton q
      | cons q' qs => exact .cons_cons (hfirst q' rfl) hchain
    · cases qs with
      | nil => exact hlast
      | cons q' qs =>
        rw [hlast, List.getLast?_cons_cons]
        simp [List.getLast?_cons]

theorem ended_le (h : Series w qs s t) :
    ∀ q ∈ qs, ∃ timeout, q.call.timeout? = some timeout ∧ q.time ≤ q.ended ∧
      q.ended ≤ q.time + timeout + Routine.grace := by
  induction h with
  | nil s => simp
  | cons hpage htime htimeout hends _ ih =>
    exact List.forall_mem_cons.mpr ⟨⟨_, htimeout, hends.time_le⟩, ih⟩

end Series

/-! ## Attempts of routines -/

theorem Session.ask_ends {w : World σ} (hw : w.Calm) (c : Call) (timeout : Nat) (s : Session σ) :
    ∃ reply ended, s.ask w none c (some (timeout + Routine.grace)) =
        (.done reply, s.awaited w c ended) ∧
      Attempt.Ends w timeout ⟨⟨s.page, s.now, c, ended⟩, reply⟩ := by
  obtain ⟨reply, hreply⟩ : ∃ reply, (w.answer s.page s.now c).outcome.ended = .done reply := by
    rcases h : (w.answer s.page s.now c).outcome.ended with reply | halt
    · exact ⟨reply, rfl⟩
    · obtain ⟨b, -, hb⟩ := Outcome.ended_halted h
      exact absurd hb (hw s.page s.now c b)
  simp only [Session.ask, hreply]
  rcases hdelay : (w.answer s.page s.now c).delay with _ | ms
  · exact ⟨.late, _, rfl, .givenUp (by simp [hdelay]) rfl rfl⟩
  · by_cases hms : ms ≤ min Session.longest (timeout + Routine.grace)
    · have hwait : waitFor (some (timeout + Routine.grace)) (some ms) = some (ms, true) := if_pos hms
      simp only [hwait, reaches_none, if_true]
      exact ⟨reply, _, rfl, .answered hdelay hms hreply rfl⟩
    · have hwait : waitFor (some (timeout + Routine.grace)) (some ms) =
          some (min Session.longest (timeout + Routine.grace), false) := if_neg hms
      have hlong : ∀ n ∈ (w.answer s.page s.now c).delay,
          min Session.longest (timeout + Routine.grace) < n := by
        intro n hn
        obtain rfl : ms = n := by simpa [hdelay] using hn
        exact Nat.lt_of_not_le hms
      simp only [hwait, reaches_none, if_true]
      exact ⟨.late, _, rfl, .givenUp hlong rfl rfl⟩

namespace Routine

theorem bounded_bind (operation : String) (timeout : Nat) (c : Call)
    (f : Except BrowserError Value → Routine β) :
    (bounded operation timeout c).bind f = (ask c (some (timeout + grace))).bind fun
      | .ok v => f (.ok v)
      | .failed e => f (.error e)
      | .late => f (.error (.timeout operation timeout)) := by
  simp only [bounded, ask, bind]
  congr 1
  funext reply
  cases reply <;> rfl

/-- The attempts of a routine that is carried out without a deadline. -/
def attempted (w : World σ) : Routine α → Session σ → List (Attempt σ)
  | done _, _ => []
  | call c limit next, s =>
    Ended.traceThen (s.ask w none c limit) fun reply t =>
      ⟨⟨s.page, s.now, c, t.now⟩, reply⟩ :: (next reply).attempted w t
  | pause ms next, s => next.attempted w (s.elapse w none (min Session.longest ms)).2
  | save path bytes next, s =>
    if w.stores s.page s.now path then (next true).attempted w (s.write path bytes)
    else (next false).attempted w s

variable {w : World σ}

theorem attempted_bind (r : Routine α) (f : α → Routine β) (s : Session σ) :
    (r.bind f).attempted w s =
      r.attempted w s ++ Ended.traceThen (r.run w none s) fun a t => (f a).attempted w t := by
  induction r generalizing s with
  | done a => rfl
  | call c limit next ih =>
    rw [bind, attempted, attempted, run_call]
    rcases s.ask w none c limit with ⟨reply | h, t⟩
    · simp only [Ended.traceThen_done, Ended.andThen_done, ih, List.cons_append]
    · rfl
  | pause ms next ih => exact ih _
  | save path bytes next ih =>
    simp only [bind, attempted, run]
    split
    · exact ih true _
    · exact ih false _

theorem attempted_bind_done (r : Routine α) (f : α → β) (s : Session σ) :
    (r.bind fun a => done (f a)).attempted w s = r.attempted w s := by
  rw [attempted_bind]
  rcases r.run w none s with ⟨a | h, t⟩
  · exact List.append_nil _
  · exact List.append_nil _

theorem ask_run (hw : w.Calm) {timeout : Nat} {c : Call} (hc : c.timeout? = some timeout)
    (s : Session σ) :
    ∃ q t, (ask c (some (timeout + grace))).attempted w s = [q] ∧ q.call = c ∧ Series w [q] s t ∧
      (ask c (some (timeout + grace))).run w none s = (.done q.reply, t) := by
  obtain ⟨reply, ended, hask, hends⟩ := s.ask_ends hw c timeout
  refine ⟨⟨⟨s.page, s.now, c, ended⟩, reply⟩, s.awaited w c ended, ?_, rfl, ?_, ?_⟩
  · rw [ask, attempted, hask]
    rfl
  · exact .cons rfl rfl hc hends (.nil _)
  · rw [ask, run_call, hask]
    rfl

end Routine

/-! ## Without a deadline -/

theorem Session.ask_uncut {w : World σ} {d : Option Nat} {c : Call} {limit : Option Nat}
    {s t : Session σ} {reply : Reply} (h : s.ask w d c limit = (.done reply, t)) :
    s.ask w none c limit = (.done reply, t) := by
  simp only [ask] at h ⊢
  split at h
  · cases d <;> cases h
  · split at h
    · simpa using h
    · cases h

theorem Routine.run_uncut {w : World σ} {d : Option Nat} {r : Routine α} {s t : Session σ} {a : α}
    (h : r.run w d s = (.done a, t)) : r.run w none s = (.done a, t) := by
  induction r generalizing s with
  | done a => exact h
  | call c limit next ih =>
    obtain ⟨reply, u, hask, hnext⟩ := Ended.andThen_eq_done h
    rw [run_call, Session.ask_uncut hask]
    exact ih reply hnext
  | pause ms next ih =>
    simp only [run, Session.elapse] at h ⊢
    split at h
    · rename_i he
      split at he
      · cases he
        exact ih h
      · cases he
    · cases h
  | save path bytes next ih =>
    simp only [run] at h ⊢
    by_cases hstores : w.stores s.page s.now path = true
    · rw [if_pos hstores] at h ⊢
      exact ih true h
    · rw [if_neg hstores] at h ⊢
      exact ih false h

/-- What is recorded of a step under a deadline is recorded without one. -/
theorem CaseRun.runStep_uncut {x : Step.Context} {w : World σ} {d : Option Nat} {index : Nat}
    {description : String} {action : Action} {vars : Variables} {s t : Session σ}
    {p : StepResult × Variables} (h : runStep x w d index description action vars s = (.done p, t)) :
    runStep x w none index description action vars s = (.done p, t) := by
  rw [runStep_eq] at h ⊢
  obtain ⟨q, t₁, hperform, h⟩ := Ended.andThen_eq_done h
  obtain ⟨shot, t₂, hclose, h⟩ := Ended.andThen_eq_done h
  rw [Routine.run_uncut hperform, Ended.andThen_done, Routine.run_uncut hclose]
  exact h

end PlainSteps
