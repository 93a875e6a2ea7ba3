import PlainSteps.Proofs.Execution

/-!
# The requests of a routine

* `Request` : a request as it was carried out, with the browser it was made to and the time for which
  it was waited.
* `Routine.requests` : the requests of a routine that is carried out under a deadline, in order.
* `Traced` : requests account for all that a session has noted since another, and lead the browser
  from the one to the other.
* `Routine.run_traced` : the requests of a routine do so.
* `Routine.requests_bind` : the requests of a sequence are those of its parts in turn.
-/

namespace PlainSteps

variable {σ α β : Type}

/-- A request as it was carried out. -/
structure Request (σ : Type) where
  /-- The browser when the request was made. -/
  page : σ
  time : Nat
  call : Call
  /-- The time at which the wait for the request was over, whether it had ended or not. -/
  ended : Nat

namespace Request

/-- What a session notes of the request. -/
def event (q : Request σ) : Event :=
  .call q.time q.call

/-- The browser from the request on. -/
def after (w : World σ) (q : Request σ) : σ :=
  (w.answer q.page q.time q.call).page

/-- The responses received while the request was waited for. -/
def responses (w : World σ) (q : Request σ) : List NetworkEntry :=
  ((w.answer q.page q.time q.call).exchanges.filter fun e => q.time + e.1 ≤ q.ended).map fun e =>
    ⟨e.2, w.opening.after (q.time + e.1)⟩

/-- Requests are made one after the other, none before the one ahead of it is over, and each to the
browser as the one ahead of it has left it. -/
inductive Leads (w : World σ) : List (Request σ) → σ → Nat → σ → Nat → Prop
  | nil {page : σ} {now now' : Nat} (h : now ≤ now') : Leads w [] page now page now'
  | cons {q : Request σ} {qs : List (Request σ)} {page' : σ} {now now' : Nat}
      (hmade : now ≤ q.time) (hended : q.time ≤ q.ended)
      (h : Leads w qs (q.after w) q.ended page' now') : Leads w (q :: qs) q.page now page' now'

variable {w : World σ} {qs qs' : List (Request σ)} {page page' page'' : σ} {now now' now'' : Nat}

theorem Leads.weaken (h : Leads w qs page now' page' now'') (hle : now ≤ now') :
    Leads w qs page now page' now'' := by
  cases h with
  | nil h => exact .nil (Nat.le_trans hle h)
  | cons hmade hended h => exact .cons (Nat.le_trans hle hmade) hended h

theorem Leads.append (h : Leads w qs page now page' now') (h' : Leads w qs' page' now' page'' now'') :
    Leads w (qs ++ qs') page now page'' now'' := by
  induction h with
  | nil hle => exact h'.weaken hle
  | cons hmade hended _ ih => exact .cons hmade hended (ih h')

end Request

/-- The requests account for all that the one session has noted in addition to the other. -/
structure Traced (w : World σ) (qs : List (Request σ)) (s t : Session σ) : Prop where
  events : t.events = s.events ++ qs.map (·.event)
  network : t.network = s.network.map fun log => ⟨log.entries ++ qs.flatMap (·.responses w)⟩
  leads : Request.Leads w qs s.page s.now t.page t.now

namespace Traced

variable {w : World σ} {qs qs' : List (Request σ)} {s t u : Session σ}

theorem append (h : Traced w qs s t) (h' : Traced w qs' t u) : Traced w (qs ++ qs') s u where
  events := by rw [h'.events, h.events, List.map_append, List.append_assoc]
  network := by
    rw [h'.network, h.network, Option.map_map]
    simp only [Function.comp_def, List.flatMap_append, List.append_assoc]
  leads := h.leads.append h'.leads

theorem nil (hevents : t.events = s.events) (hnetwork : t.network = s.network)
    (hpage : t.page = s.page) (hnow : s.now ≤ t.now) : Traced w [] s t where
  events := by rw [hevents, List.map_nil, List.append_nil]
  network := by
    rw [hnetwork]
    cases s.network <;> simp
  leads := hpage ▸ .nil hnow

theorem awaited (c : Call) {time : Nat} (hle : s.now ≤ time) :
    Traced w [⟨s.page, s.now, c, time⟩] s (s.awaited w c time) where
  events := rfl
  network := by
    simp only [Session.awaited, Session.receive, Session.made, List.flatMap_cons, List.flatMap_nil,
      List.append_nil, Request.responses]
  leads := .cons (Nat.le_refl _) hle (.nil (Nat.le_refl _))

end Traced

/-! ## Traces of routines -/

/-- What is traced of what follows; nothing follows a halt. -/
def Ended.traceThen (x : Ended α × Session σ) (f : α → Session σ → List β) : List β :=
  match x with
  | (done a, s) => f a s
  | (halted _, _) => []

@[simp] theorem Ended.traceThen_done (a : α) (s : Session σ) (f : α → Session σ → List β) :
    traceThen (.done a, s) f = f a s := rfl

@[simp] theorem Ended.traceThen_halted (h : Halt) (s : Session σ) (f : α → Session σ → List β) :
    traceThen (.halted h, s) f = [] := rfl

theorem Session.ask_awaited {w : World σ} {d : Nat} {s : Session σ} (hs : s.now ≤ d) (c : Call)
    (limit : Option Nat) : ∃ time, s.now ≤ time ∧ time ≤ d ∧
      (s.ask w (some d) c limit).2 = s.awaited w c time := by
  rcases s.ask_cases w (some d) c limit (inTime_some.mpr hs) with
    ⟨h, -⟩ | ⟨d', hd, hask⟩ | ⟨time, x, hle, hd, -, hask⟩
  · cases h
  · obtain rfl : d = d' := Option.some.inj hd
    exact ⟨d, hs, Nat.le_refl d, by rw [hask]⟩
  · exact ⟨time, hle, hd d rfl, by rw [hask]⟩

namespace Routine

/-- The requests that a routine makes under a deadline. -/
def requests (w : World σ) (d : Nat) : Routine α → Session σ → List (Request σ)
  | done _, _ => []
  | call c limit next, s =>
    ⟨s.page, s.now, c, (s.ask w (some d) c limit).2.now⟩ ::
      Ended.traceThen (s.ask w (some d) c limit) fun reply t => (next reply).requests w d t
  | pause ms next, s =>
    match s.elapse w (some d) (min Session.longest ms) with
    | (true, t) => next.requests w d t
    | (false, _) => []
  | save path bytes next, s =>
    if w.stores s.page s.now path then (next true).requests w d (s.write path bytes)
    else (next false).requests w d s

variable {w : World σ} {d : Nat} {s : Session σ}

/-- The requests of a routine account for all that it makes a session note. -/
theorem run_traced (r : Routine α) (hs : s.now ≤ d) :
    Traced w (r.requests w d s) s (r.run w (some d) s).2 := by
  induction r generalizing s with
  | done a => exact .nil rfl rfl rfl (Nat.le_refl _)
  | call c limit next ih =>
    obtain ⟨time, hle, hd, hask⟩ := Session.ask_awaited (w := w) hs c limit
    have hmade : Traced w [⟨s.page, s.now, c, (s.ask w (some d) c limit).2.now⟩] s
        (s.ask w (some d) c limit).2 := by
      rw [hask]
      exact .awaited c hle
    have hnow : (s.ask w (some d) c limit).2.now ≤ d := by
      rw [hask]
      exact hd
    rw [requests, run_call]
    generalize s.ask w (some d) c limit = x at hmade hnow
    obtain ⟨reply | h, t⟩ := x
    · exact hmade.append (ih reply hnow)
    · exact hmade
  | pause ms next ih =>
    simp only [requests, run, Session.elapse]
    by_cases hreach : Session.reaches w (some d) s.now (s.now + min Session.longest ms) = true
    · have hlater : s.now + min Session.longest ms ≤ d :=
        Session.le_of_reaches (Session.inTime_some.mpr hs) hreach d rfl
      have hpaused : Traced w [] s { s with now := s.now + min Session.longest ms } :=
        .nil rfl rfl rfl (Nat.le_add_right _ _)
      simp only [if_pos hreach]
      exact hpaused.append (ih hlater)
    · simp only [if_neg hreach]
      exact .nil rfl rfl rfl hs
  | save path bytes next ih =>
    simp only [requests, run]
    split
    · have hwritten : Traced w [] s (s.write path bytes) := .nil rfl rfl rfl (Nat.le_refl _)
      exact hwritten.append (ih true hs)
    · exact ih false hs

theorem requests_bind (r : Routine α) (f : α → Routine β) (s : Session σ) :
    (r.bind f).requests w d s =
      r.requests w d s ++ Ended.traceThen (r.run w (some d) s) fun a t => (f a).requests w d t := by
  induction r generalizing s with
  | done a => rfl
  | call c limit next ih =>
    rw [bind, requests, requests, run_call]
    rcases s.ask w (some d) c limit with ⟨reply | h, t⟩
    · simp only [Ended.traceThen_done, Ended.andThen_done, ih, List.cons_append]
    · rfl
  | pause ms next ih =>
    simp only [bind, requests, run]
    rcases s.elapse w (some d) (min Session.longest ms) with ⟨⟨⟩ | ⟨⟩, t⟩
    · rfl
    · exact ih t
  | save path bytes next ih =>
    simp only [bind, requests, run]
    split
    · exact ih true _
    · exact ih false _

theorem asks_of_mem_requests {P : Call → Prop} {r : Routine α} (hr : r.Asks P) {q : Request σ}
    (hq : q ∈ r.requests w d s) : P q.call := by
  induction r generalizing s with
  | done a => cases hq
  | call c limit next ih =>
    rw [requests] at hq
    rcases List.mem_cons.mp hq with rfl | hq
    · exact hr.1
    · generalize s.ask w (some d) c limit = x at hq
      obtain ⟨reply | h, t⟩ := x
      · exact ih reply (hr.2 reply) hq
      · cases hq
  | pause ms next ih =>
    simp only [requests] at hq
    split at hq
    · exact ih hr hq
    · cases hq
  | save path bytes next ih =>
    simp only [requests] at hq
    split at hq
    · exact ih true (hr true) hq
    · exact ih false (hr false) hq

end Routine

end PlainSteps
