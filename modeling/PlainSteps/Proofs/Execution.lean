import PlainSteps.Session

/-!
# Carrying out routines

* `Routine.run_bind` : the parts of a sequence are carried out in turn, up to the first that halts.
* `Session.ask_cases` : everything that can come of one request.
* `Routine.run_keeps` : what every request, pause and file keeps is kept by a whole routine.
* `Routine.run_halted` : a routine halts at its deadline, without one at a request that never ends,
  or at a breakdown of one of its own requests.
-/

namespace PlainSteps

variable {σ α β : Type}

/-! ## Requests -/

namespace Session

@[simp] theorem made_events (w : World σ) (c : Call) (s : Session σ) :
    (s.made w c).events = s.events ++ [.call s.now c] := rfl

@[simp] theorem awaited_events (w : World σ) (c : Call) (time : Nat) (s : Session σ) :
    (s.awaited w c time).events = s.events ++ [.call s.now c] := rfl

/-- The deadline, if there is one, has not been passed. -/
def InTime (deadline : Option Nat) (s : Session σ) : Prop :=
  ∀ d ∈ deadline, s.now ≤ d

theorem inTime_none (s : Session σ) : s.InTime none := by
  intro d h
  cases h

theorem inTime_some {d : Nat} {s : Session σ} : s.InTime (some d) ↔ s.now ≤ d := by
  simp [InTime]

theorem le_of_reaches {w : World σ} {deadline : Option Nat} {now time : Nat}
    (hnow : ∀ d ∈ deadline, now ≤ d) (h : reaches w deadline now time = true) :
    ∀ d ∈ deadline, time ≤ d := by
  rintro d rfl
  have := hnow d rfl
  simp only [reaches, Bool.or_eq_true, beq_iff_eq, decide_eq_true_eq, Bool.and_eq_true] at h
  omega

@[simp] theorem reaches_none (w : World σ) (now time : Nat) : reaches w none now time = true := rfl

theorem le_of_not_reaches {w : World σ} {d now time : Nat}
    (h : ¬reaches w (some d) now time = true) : d ≤ time := by
  simp only [reaches, Bool.or_eq_true, decide_eq_true_eq, not_or] at h
  exact Nat.le_of_not_lt h.1.2

/-- A request never ends, is cut at the deadline, or has an end that is reached: then it is given up
there or it has ended. -/
theorem ask_cases (w : World σ) (deadline : Option Nat) (c : Call) (limit : Option Nat)
    (s : Session σ) (hs : s.InTime deadline) :
    (deadline = none ∧ s.ask w deadline c limit = (.halted .stuck, s.made w c)) ∨
    (∃ d, deadline = some d ∧ s.ask w deadline c limit = (.halted .deadline, s.awaited w c d)) ∨
    (∃ time x, s.now ≤ time ∧ (∀ d ∈ deadline, time ≤ d) ∧
      (x = .done .late ∨ x = (w.answer s.page s.now c).outcome.ended) ∧
      s.ask w deadline c limit = (x, s.awaited w c time)) := by
  simp only [ask]
  rcases waitFor limit (w.answer s.page s.now c).delay with _ | ⟨ms, ended⟩
  · cases deadline with
    | none => exact .inl ⟨rfl, rfl⟩
    | some d =>
      have hd : max s.now d = d := Nat.max_eq_right (inTime_some.mp hs)
      exact .inr (.inl ⟨d, rfl, by simp only [hd]⟩)
  · simp only
    by_cases hr : reaches w deadline s.now (s.now + ms) = true
    · rw [if_pos hr]
      refine .inr (.inr ⟨s.now + ms, _, Nat.le_add_right _ _, le_of_reaches hs hr, ?_, rfl⟩)
      cases ended
      · exact .inl rfl
      · exact .inr rfl
    · cases deadline with
      | none => exact absurd rfl hr
      | some d => exact .inr (.inl ⟨d, rfl, if_neg hr⟩)

end Session

/-- What a request without a limit comes to. -/
def Outcome.result : Outcome → Ended (Except BrowserError Value)
  | ok v => .done (.ok v)
  | failed e => .done (.error e)
  | breakdown b => .halted (.breakdown b)

/-! ## Sequences -/

namespace Ended

@[simp] theorem andThen_done (a : α) (t : Session σ)
    (f : α → Session σ → Ended β × Session σ) : andThen (.done a, t) f = f a t := rfl

@[simp] theorem andThen_halted (h : Halt) (t : Session σ)
    (f : α → Session σ → Ended β × Session σ) :
    andThen (.halted h, t) f = (.halted h, t) := rfl

theorem andThen_eq_done {x : Ended α × Session σ} {f : α → Session σ → Ended β × Session σ}
    {b : β} {t : Session σ} (e : andThen x f = (.done b, t)) :
    ∃ a u, x = (.done a, u) ∧ f a u = (.done b, t) := by
  rcases x with ⟨a | h, u⟩
  · exact ⟨a, u, rfl, e⟩
  · cases e

theorem andThen_eq_halted {x : Ended α × Session σ} {f : α → Session σ → Ended β × Session σ}
    {h : Halt} {t : Session σ} (e : andThen x f = (.halted h, t)) :
    x = (.halted h, t) ∨ ∃ a u, x = (.done a, u) ∧ f a u = (.halted h, t) := by
  rcases x with ⟨a | h', u⟩
  · exact .inr ⟨a, u, rfl, e⟩
  · cases e
    exact .inl rfl

theorem now_le_andThen {x : Ended α × Session σ} {f : α → Session σ → Ended β × Session σ}
    {now : Nat} (hx : now ≤ x.2.now) (hf : ∀ a t, t.now ≤ (f a t).2.now) :
    now ≤ (andThen x f).2.now := by
  rcases x with ⟨a | h, t⟩
  · exact Nat.le_trans hx (hf a t)
  · exact hx

end Ended

namespace Routine

@[simp] theorem run_done (w : World σ) (d : Option Nat) (a : α) (s : Session σ) :
    (done a).run w d s = (.done a, s) := rfl

theorem run_call (w : World σ) (d : Option Nat) (c : Call) (limit : Option Nat)
    (next : Reply → Routine α) (s : Session σ) :
    (call c limit next).run w d s =
      Ended.andThen (s.ask w d c limit) fun reply t => (next reply).run w d t := rfl

theorem run_bind (w : World σ) (d : Option Nat) (r : Routine α) (f : α → Routine β)
    (s : Session σ) :
    (r.bind f).run w d s = Ended.andThen (r.run w d s) fun a t => (f a).run w d t := by
  induction r generalizing s with
  | done a => rfl
  | call c limit next ih =>
    rw [bind, run_call, run_call]
    rcases s.ask w d c limit with ⟨reply | h, t⟩
    · exact ih reply t
    · rfl
  | pause ms next ih =>
    simp only [bind, run]
    split
    · exact ih _
    · rfl
  | save path bytes next ih =>
    simp only [bind, run]
    split
    · exact ih _ _
    · exact ih _ _

theorem run_request (w : World σ) (c : Call) (s : Session σ) :
    (request c).run w none s =
      match (w.answer s.page s.now c).delay with
      | none => (.halted .stuck, s.made w c)
      | some ms => ((w.answer s.page s.now c).outcome.result, s.awaited w c (s.now + ms)) := by
  rw [request, run_call, Session.ask]
  rcases (w.answer s.page s.now c).delay with _ | ms
  · rfl
  · simp only [waitFor, Option.map_none, Session.reaches_none, if_true]
    cases (w.answer s.page s.now c).outcome <;> rfl

/-! ## What is kept -/

/-- All requests that the routine may make are of a kind. -/
def Asks (P : Call → Prop) : Routine α → Prop
  | done _ => True
  | call c _ next => P c ∧ ∀ reply, (next reply).Asks P
  | pause _ next => next.Asks P
  | save _ _ next => ∀ ok, (next ok).Asks P

theorem asks_bind {P : Call → Prop} {r : Routine α} {f : α → Routine β} (hr : r.Asks P)
    (hf : ∀ a, (f a).Asks P) : (r.bind f).Asks P := by
  induction r with
  | done a => exact hf a
  | call c limit next ih => exact ⟨hr.1, fun reply => ih reply (hr.2 reply)⟩
  | pause ms next ih => exact ih hr
  | save path bytes next ih => exact fun ok => ih ok (hr ok)

theorem Asks.mono {P Q : Call → Prop} {r : Routine α} (hr : r.Asks P) (h : ∀ c, P c → Q c) :
    r.Asks Q := by
  induction r with
  | done a => trivial
  | call c limit next ih => exact ⟨h c hr.1, fun reply => ih reply (hr.2 reply)⟩
  | pause ms next ih => exact ih hr
  | save path bytes next ih => exact fun ok => ih ok (hr ok)

theorem asks_true (r : Routine α) : r.Asks fun _ => True := by
  induction r with
  | done a => trivial
  | call c limit next ih => exact ⟨trivial, ih⟩
  | pause ms next ih => exact ih
  | save path bytes next ih => exact ih

theorem run_keeps {w : World σ} {deadline : Option Nat} {P : Call → Prop} {I : Session σ → Prop}
    (hmade : ∀ s c, P c → I s → I (s.made w c))
    (hawaited : ∀ s c time, P c → s.now ≤ time → (∀ d ∈ deadline, time ≤ d) → I s →
      I (s.awaited w c time))
    (hpause : ∀ s time, s.now ≤ time → (∀ d ∈ deadline, time ≤ d) → I s → I { s with now := time })
    (hwrite : ∀ s path bytes, I s → I (s.write path bytes))
    {r : Routine α} (hr : r.Asks P) {s : Session σ} (hs : s.InTime deadline) (h : I s) :
    I (r.run w deadline s).2 := by
  induction r generalizing s with
  | done a => exact h
  | call c limit next ih =>
    rw [run_call]
    rcases s.ask_cases w deadline c limit hs with ⟨_, e⟩ | ⟨d, hd, e⟩ | ⟨time, x, hle, hd, -, e⟩
    · rw [e]
      exact hmade s c hr.1 h
    · rw [e]
      subst hd
      have hle := Session.inTime_some.mp hs
      exact hawaited s c d hr.1 hle (by simp) h
    · have ht := hawaited s c time hr.1 hle hd h
      rw [e]
      cases x with
      | done reply => exact ih reply (hr.2 reply) hd ht
      | halted h => exact ht
  | pause ms next ih =>
    simp only [run, Session.elapse]
    by_cases hreach : Session.reaches w deadline s.now (s.now + min Session.longest ms) = true
    · have hd := Session.le_of_reaches hs hreach
      rw [if_pos hreach]
      exact ih hr hd (hpause s _ (Nat.le_add_right _ _) hd h)
    · rw [if_neg hreach]
      cases deadline with
      | none => exact h
      | some d => exact hpause s d (Session.inTime_some.mp hs) (by simp) h
  | save path bytes next ih =>
    simp only [run]
    split
    · exact ih true (hr true) hs (hwrite s path bytes h)
    · exact ih false (hr false) hs h

section kept

variable {w : World σ} {deadline : Option Nat} {r : Routine α} {s : Session σ}

theorem run_inTime (r : Routine α) (hs : s.InTime deadline) :
    (r.run w deadline s).2.InTime deadline :=
  run_keeps (I := fun t => t.InTime deadline) (fun _ _ _ h => h) (fun _ _ _ _ _ hd _ => hd)
    (fun _ _ _ hd _ => hd) (fun _ _ _ h => h) r.asks_true hs hs

theorem inTime_of_run {x : Ended α} {t : Session σ} (hs : s.InTime deadline)
    (e : r.run w deadline s = (x, t)) : t.InTime deadline := by
  have h := run_inTime (w := w) r hs
  rwa [e] at h

theorem run_now_le (r : Routine α) (hs : s.InTime deadline) :
    s.now ≤ (r.run w deadline s).2.now :=
  run_keeps (I := fun t => s.now ≤ t.now) (fun _ _ _ h => h)
    (fun _ _ _ _ hle _ h => Nat.le_trans h hle) (fun _ _ hle _ h => Nat.le_trans h hle)
    (fun _ _ _ h => h) r.asks_true hs (Nat.le_refl _)

end kept

theorem ask_events (w : World σ) (deadline : Option Nat) (c : Call) (limit : Option Nat)
    (s : Session σ) : (s.ask w deadline c limit).2.events = s.events ++ [.call s.now c] := by
  simp only [Session.ask]
  split
  · cases deadline <;> rfl
  · split <;> rfl

/-- A routine notes its own requests and nothing else. -/
theorem run_events {P : Call → Prop} {r : Routine α} (hr : r.Asks P) (w : World σ)
    (deadline : Option Nat) (s : Session σ) :
    ∃ made, (r.run w deadline s).2.events = s.events ++ made ∧
      ∀ e ∈ made, ∃ time c, e = .call time c ∧ P c := by
  induction r generalizing s with
  | done a => exact ⟨[], by simp, by simp⟩
  | call c limit next ih =>
    have hask := ask_events w deadline c limit s
    rw [run_call]
    generalize s.ask w deadline c limit = x at hask
    obtain ⟨reply | h, t⟩ := x
    · obtain ⟨made, he, hall⟩ := ih reply (hr.2 reply) t
      refine ⟨.call s.now c :: made, ?_, ?_⟩
      · rw [Ended.andThen_done, he, hask, List.append_assoc, List.singleton_append]
      · exact List.forall_mem_cons.mpr ⟨⟨s.now, c, rfl, hr.1⟩, hall⟩
    · refine ⟨[.call s.now c], hask, ?_⟩
      intro e he
      exact ⟨s.now, c, List.mem_singleton.mp he, hr.1⟩
  | pause ms next ih =>
    simp only [run, Session.elapse]
    by_cases hreach : Session.reaches w deadline s.now (s.now + min Session.longest ms) = true
    · rw [if_pos hreach]
      exact ih hr _
    · rw [if_neg hreach]
      exact ⟨[], by simp, by simp⟩
  | save path bytes next ih =>
    simp only [run]
    split
    · exact ih true (hr true) _
    · exact ih false (hr false) _

end Routine

/-! ## Halts -/

/-- What a halt tells: a deadline was set, or none was, or a request broke down. -/
def Halt.Explained (w : World σ) (deadline : Option Nat) (P : Call → Prop) : Halt → Prop
  | .deadline => deadline ≠ none
  | .stuck => deadline = none
  | .breakdown b => ∃ page time c, P c ∧ (w.answer page time c).outcome = .breakdown b

theorem Outcome.ended_halted {o : Outcome} {h : Halt} (e : o.ended = .halted h) :
    ∃ b, h = .breakdown b ∧ o = .breakdown b := by
  cases o with
  | breakdown b =>
    injection e with e
    exact ⟨b, e.symm, rfl⟩
  | _ => cases e

namespace Routine

variable {w : World σ} {deadline : Option Nat} {s : Session σ}

theorem ask_halted {c : Call} {limit : Option Nat} {h : Halt} {t : Session σ}
    {P : Call → Prop} (hc : P c) (hs : s.InTime deadline)
    (e : s.ask w deadline c limit = (.halted h, t)) : h.Explained w deadline P := by
  rcases s.ask_cases w deadline c limit hs with ⟨hd, e'⟩ | ⟨d, hd, e'⟩ | ⟨time, x, _, _, hx, e'⟩
  · obtain ⟨rfl, -⟩ := by simpa using e.symm.trans e'
    exact hd
  · obtain ⟨rfl, -⟩ := by simpa using e.symm.trans e'
    simp [Halt.Explained, hd]
  · obtain ⟨rfl, -⟩ := by simpa using e.symm.trans e'
    rcases hx with hx | hx
    · cases hx
    · obtain ⟨b, rfl, hb⟩ := Outcome.ended_halted hx.symm
      exact ⟨s.page, s.now, c, hc, hb⟩

theorem run_halted {P : Call → Prop} {r : Routine α} (hr : r.Asks P) (hs : s.InTime deadline)
    {h : Halt} {t : Session σ} (e : r.run w deadline s = (.halted h, t)) :
    h.Explained w deadline P := by
  induction r generalizing s with
  | done a => simp at e
  | call c limit next ih =>
    rw [run_call] at e
    rcases hask : s.ask w deadline c limit with ⟨reply | h', t'⟩
    · rw [hask] at e
      have hrun : (ask c limit).run w deadline s = (.done reply, t') := by
        rw [ask, run_call, hask]
        rfl
      exact ih reply (hr.2 reply) (inTime_of_run hs hrun) e
    · rw [hask] at e
      obtain ⟨rfl, -⟩ := by simpa using e
      exact ask_halted hr.1 hs hask
  | pause ms next ih =>
    simp only [run, Session.elapse] at e
    by_cases hreach : Session.reaches w deadline s.now (s.now + min Session.longest ms) = true
    · rw [if_pos hreach] at e
      exact ih hr (Session.le_of_reaches hs hreach) e
    · rw [if_neg hreach] at e
      obtain ⟨rfl, -⟩ := by simpa using e
      rintro rfl
      exact hreach rfl
  | save path bytes next ih =>
    simp only [run] at e
    split at e
    · have hs' : (s.write path bytes).InTime deadline := hs
      exact ih true (hr true) hs' e
    · exact ih false (hr false) hs e

end Routine

end PlainSteps
