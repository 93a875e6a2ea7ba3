import PlainSteps.Proofs.Execution
import PlainSteps.Proofs.SavedFiles

/-!
# Two runs side by side

Two runs are compared by a relation between their sessions that every request keeps.

* `World.after` : the browser after requests, as they were made. What a browser is like can depend on
  nothing else, so a browser that does not tell two histories of requests apart is one whose answers
  after the two are the same.
* `Ended.Paired` : two ends are alike, results that are related or the same halt, in related sessions.
* `Session.ask_paired`, `Routine.run_paired` : a request that is answered alike comes to the same in
  related sessions, and so does a routine each of whose requests does.
-/

namespace PlainSteps

variable {σ α β : Type}

/-! ## Histories -/

/-- The browser after requests, each made at a time. -/
def World.after (w : World σ) (page : σ) (made : List (Nat × Call)) : σ :=
  made.foldl (fun page q => (w.answer page q.1 q.2).page) page

theorem World.after_concat (w : World σ) (page : σ) (made : List (Nat × Call)) (time : Nat) (c : Call) :
    w.after page (made ++ [(time, c)]) = (w.answer (w.after page made) time c).page := by
  rw [after, List.foldl_append]
  rfl

/-! ## Ends -/

/-- Two ends are alike: results that are related, or the same halt, in sessions that are. -/
inductive Ended.Paired (I : Session σ → Session σ → Prop) (R : α → β → Prop) :
    Ended α × Session σ → Ended β × Session σ → Prop
  | done {p : α} {q : β} {s t : Session σ} (hpq : R p q) (h : I s t) : Paired I R (.done p, s) (.done q, t)
  | halted {halt : Halt} {s t : Session σ} (h : I s t) : Paired I R (.halted halt, s) (.halted halt, t)

namespace Ended.Paired

variable {I J : Session σ → Session σ → Prop} {R : α → β → Prop} {x : Ended α × Session σ}
  {y : Ended β × Session σ}

theorem mono (h : Paired I R x y) (hIJ : ∀ s t, I s t → J s t) : Paired J R x y := by
  cases h with
  | done hpq h => exact .done hpq (hIJ _ _ h)
  | halted h => exact .halted (hIJ _ _ h)

theorem andThen {γ δ : Type} {S : γ → δ → Prop} {f : α → Session σ → Ended γ × Session σ}
    {g : β → Session σ → Ended δ × Session σ} (h : Paired I R x y)
    (hfg : ∀ p q s t, R p q → I s t → Paired I S (f p s) (g q t)) :
    Paired I S (Ended.andThen x f) (Ended.andThen y g) := by
  cases h with
  | done hpq h => exact hfg _ _ _ _ hpq h
  | halted h => exact .halted h

theorem exists_of_eq {x y : Ended α × Session σ} (h : Paired I Eq x y) :
    ∃ e s t, x = (e, s) ∧ y = (e, t) ∧ I s t := by
  cases h with
  | done hpq h =>
    subst hpq
    exact ⟨_, _, _, rfl, rfl, h⟩
  | halted h => exact ⟨_, _, _, rfl, rfl, h⟩

end Ended.Paired

/-! ## Requests and routines -/

theorem Session.ask_paired {w : World σ} {d : Option Nat} {I : Session σ → Session σ → Prop}
    {s t : Session σ} {c c' : Call} (limit : Option Nat)
    (hdelay : (w.answer s.page s.now c).delay = (w.answer t.page t.now c').delay)
    (houtcome : (w.answer s.page s.now c).outcome = (w.answer t.page t.now c').outcome)
    (hreaches : ∀ ms, reaches w d s.now (s.now + ms) = reaches w d t.now (t.now + ms))
    (hmade : I (s.made w c) (t.made w c'))
    (hawaited : ∀ ms, I (s.awaited w c (s.now + ms)) (t.awaited w c' (t.now + ms)))
    (hcut : ∀ due ∈ d, I (s.awaited w c due) (t.awaited w c' due) ∧
      I (s.awaited w c (max s.now due)) (t.awaited w c' (max t.now due))) :
    Ended.Paired I Eq (s.ask w d c limit) (t.ask w d c' limit) := by
  simp only [ask, hdelay, houtcome]
  rcases waitFor limit (w.answer t.page t.now c').delay with _ | ⟨ms, ended⟩
  · cases d with
    | none => exact .halted hmade
    | some due => exact .halted (hcut due rfl).2
  · simp only [hreaches]
    by_cases hreach : reaches w d t.now (t.now + ms) = true
    · simp only [if_pos hreach]
      rcases (if ended = true then (w.answer t.page t.now c').outcome.ended else .done .late)
        with reply | halt
      · exact .done rfl (hawaited ms)
      · exact .halted (hawaited ms)
    · simp only [if_neg hreach]
      cases d with
      | none => exact absurd rfl hreach
      | some due => exact .halted (hcut due rfl).1

/-- A routine comes to the same in related sessions: its requests do, the pauses between them do, and it
either writes no file or whether one can be written is the same in both. -/
theorem Routine.run_paired {w : World σ} {d : Option Nat} {I : Session σ → Session σ → Prop}
    {P : Call → Prop}
    (hask : ∀ {s t} c limit, P c → I s t → Ended.Paired I Eq (s.ask w d c limit) (t.ask w d c limit))
    (helapse : ∀ {s t} ms, I s t →
      (s.elapse w d ms).1 = (t.elapse w d ms).1 ∧ I (s.elapse w d ms).2 (t.elapse w d ms).2)
    {r : Routine α} (hr : r.Asks P)
    (hfiles : r.Saveless ∨ ∀ {s t} path bytes, I s t →
      w.stores s.page s.now path = w.stores t.page t.now path ∧ I (s.write path bytes) (t.write path bytes))
    {s t : Session σ} (h : I s t) : Ended.Paired I Eq (r.run w d s) (r.run w d t) := by
  induction r generalizing s t with
  | done a => exact .done rfl h
  | call c limit next ih =>
    rw [run_call, run_call]
    refine (hask c limit hr.1 h).andThen ?_
    rintro reply _ s t rfl h
    exact ih reply (hr.2 reply) (hfiles.imp_left fun hnone => hnone reply) h
  | pause ms next ih =>
    obtain ⟨hsame, helapsed⟩ := helapse (min Session.longest ms) h
    simp only [run]
    generalize s.elapse w d (min Session.longest ms) = x at hsame helapsed
    generalize t.elapse w d (min Session.longest ms) = y at hsame helapsed
    obtain ⟨passed, s'⟩ := x
    obtain ⟨passed', t'⟩ := y
    obtain rfl : passed = passed' := hsame
    cases passed with
    | true => exact ih hr hfiles helapsed
    | false => exact .halted helapsed
  | save path bytes next ih =>
    rcases hfiles with hnone | hfiles
    · exact absurd hnone id
    · obtain ⟨hsame, hwritten⟩ := hfiles path bytes h
      simp only [run, hsame]
      split
      · exact ih true (hr true) (.inr hfiles) hwritten
      · exact ih false (hr false) (.inr hfiles) h

end PlainSteps
