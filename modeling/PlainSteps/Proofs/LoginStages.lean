import PlainSteps.Login
import PlainSteps.Proofs.Attempts

/-!
# The stages of a login

A login opens a page and then goes through three stages: the name of the user is filled in, then the
password, then the form is submitted. Each stage tries its locators in turn, and ends the login if none
of them works.

* `Dialogue` : attempts that account for all that a session has noted, each with what the browser
  answered.
* `Login.Sought` : attempts at the locators of a list, up to and including the first that works.
* `Login.first_run` : by induction on the locators, with the cases of the first attempt.
* `Login.stage_run` : a stage leads on to the next if one of its attempts works.
* `Login.Course` : which request each attempt of a login makes, stage by stage.
* `Login.ComesTo` : what a login comes to, by the stage that ends it.
* `Login.perform_in_stages` : all that a login asks, and what it comes to.
-/

namespace PlainSteps

variable {σ β : Type}

/-- Every request comes to an end of its own. -/
structure World.Returning (w : World σ) : Prop where
  calm : w.Calm
  ends : ∀ page time c, ∃ ms, (w.answer page time c).delay = some ms

/-- Whether a request has succeeded. -/
def Reply.works : Reply → Bool
  | ok _ => true
  | failed _ | late => false

/-! ## Attempts without a limit -/

/-- The attempt is over when the browser has answered it, and comes to that answer. -/
structure Attempt.Answered (w : World σ) (q : Attempt σ) : Prop where
  ended : (w.answer q.page q.time q.call).delay.map (q.time + ·) = some q.ended
  reply : (w.answer q.page q.time q.call).outcome.ended = .done q.reply

/-- Attempts that lead from one session to another, each with the answer of the browser. -/
structure Dialogue (w : World σ) (qs : List (Attempt σ)) (s t : Session σ) : Prop where
  traced : Traced w (qs.map (·.toRequest)) s t
  answered : ∀ q ∈ qs, q.Answered w

namespace Dialogue

variable {w : World σ} {qs qs' : List (Attempt σ)} {s t u : Session σ}

theorem nil (s : Session σ) : Dialogue w [] s s where
  traced := .nil rfl rfl rfl (Nat.le_refl _)
  answered := by simp

theorem append (h : Dialogue w qs s t) (h' : Dialogue w qs' t u) : Dialogue w (qs ++ qs') s u where
  traced := by
    rw [List.map_append]
    exact h.traced.append h'.traced
  answered := List.forall_mem_append.mpr ⟨h.answered, h'.answered⟩

theorem events (h : Dialogue w qs s t) : t.events = s.events ++ qs.map (·.event) := by
  rw [h.traced.events, List.map_map]
  rfl

end Dialogue

theorem Routine.request_run {w : World σ} (hw : w.Returning) (c : Call) (s : Session σ) :
    ∃ q t, q.call = c ∧ Dialogue w [q] s t ∧
      ((∃ e, q.reply = .failed e ∧ (request c).run w none s = (.done (.error e), t)) ∨
        ∃ v, q.reply = .ok v ∧ (request c).run w none s = (.done (.ok v), t)) := by
  obtain ⟨ms, hdelay⟩ := hw.ends s.page s.now c
  have htraced := Traced.awaited (w := w) c (Nat.le_add_right s.now ms)
  rw [run_request, hdelay]
  cases houtcome : (w.answer s.page s.now c).outcome with
  | ok v =>
    refine ⟨⟨⟨s.page, s.now, c, s.now + ms⟩, .ok v⟩, s.awaited w c (s.now + ms), rfl,
      ⟨htraced, ?_⟩, .inr ⟨v, rfl, rfl⟩⟩
    exact List.forall_mem_singleton.mpr ⟨by simp [hdelay], by simp [houtcome, Outcome.ended]⟩
  | failed e =>
    refine ⟨⟨⟨s.page, s.now, c, s.now + ms⟩, .failed e⟩, s.awaited w c (s.now + ms), rfl,
      ⟨htraced, ?_⟩, .inl ⟨e, rfl, rfl⟩⟩
    exact List.forall_mem_singleton.mpr ⟨by simp [hdelay], by simp [houtcome, Outcome.ended]⟩
  | breakdown b => exact absurd houtcome (hw.calm s.page s.now c b)

namespace Login

open Routine

/-! ## One stage -/

/-- Attempts at the locators of a list, up to and including the first that works. -/
structure Sought (ask : String → Call) (ls : List String) (qs : List (Attempt σ)) : Prop where
  calls : qs.map (·.call) = (ls.take qs.length).map ask
  failing : ∀ q ∈ qs.dropLast, q.reply.works = false
  working : qs.length < ls.length → ∃ q ∈ qs.getLast?, q.reply.works = true

/-- Whether one of the attempts works. -/
def worked (qs : List (Attempt σ)) : Bool :=
  qs.any (·.reply.works)

theorem worked_iff {qs : List (Attempt σ)} : worked qs = true ↔ ∃ q ∈ qs, q.reply.works = true :=
  List.any_eq_true

namespace Sought

variable {ask : String → Call} {l : String} {ls : List String} {q : Attempt σ} {qs : List (Attempt σ)}

theorem nil : Sought ask [] ([] : List (Attempt σ)) where
  calls := rfl
  failing := by simp
  working h := absurd h (Nat.lt_irrefl 0)

theorem last (hcall : q.call = ask l) (hq : q.reply.works = true) : Sought ask (l :: ls) [q] where
  calls := by simp [hcall]
  failing := by simp
  working _ := ⟨q, rfl, hq⟩

theorem cons (hcall : q.call = ask l) (hq : q.reply.works = false) (h : Sought ask ls qs) :
    Sought ask (l :: ls) (q :: qs) where
  calls := by simp [hcall, h.calls]
  failing := by
    cases qs with
    | nil => simp
    | cons q' qs => exact List.forall_mem_cons.mpr ⟨hq, h.failing⟩
  working hlt := by
    obtain ⟨q', hq', hworks⟩ := h.working (Nat.lt_of_succ_lt_succ hlt)
    refine ⟨q', ?_, hworks⟩
    rw [List.getLast?_cons, Option.mem_def.mp hq']
    rfl

theorem eq_nil (h : Sought ask [] qs) : qs = [] := by
  simpa using h.calls

theorem exists_locator (h : Sought ask ls qs) (hq : q ∈ qs) : ∃ l ∈ ls, q.call = ask l := by
  have hcall := List.mem_map_of_mem (f := fun q : Attempt σ => q.call) hq
  rw [h.calls] at hcall
  obtain ⟨l, hl, hask⟩ := List.mem_map.mp hcall
  exact ⟨l, List.mem_of_mem_take hl, hask.symm⟩

end Sought

section run

variable {w : World σ} (hw : w.Returning)

include hw

theorem first_run (ask : String → Call) (ls : List String) (s : Session σ) :
    ∃ qs t, Sought ask ls qs ∧ Dialogue w qs s t ∧
      (first ask ls).run w none s = (.done (worked qs), t) := by
  induction ls generalizing s with
  | nil => exact ⟨[], s, .nil, .nil s, rfl⟩
  | cons l ls ih =>
    obtain ⟨q, t, hcall, hdialogue, ⟨e, hreply, hrun⟩ | ⟨v, hreply, hrun⟩⟩ := request_run hw (ask l) s
    · have hq : q.reply.works = false := by rw [hreply]; rfl
      obtain ⟨qs, u, hsought, hrest, hrun'⟩ := ih t
      refine ⟨q :: qs, u, .cons hcall hq hsought, hdialogue.append hrest, ?_⟩
      rw [first, run_bind, hrun, Ended.andThen_done, hrun']
      simp [worked, hq]
    · have hq : q.reply.works = true := by rw [hreply]; rfl
      refine ⟨[q], t, .last hcall hq, hdialogue, ?_⟩
      rw [first, run_bind, hrun, Ended.andThen_done]
      simp [worked, hq]

/-- A stage leads on to the next if one of its attempts works, and else to its error. -/
theorem stage_run (reason : String) (ask : String → Call) (ls : List String)
    (next : Routine (Except RunError Unit)) (s : Session σ) :
    ∃ qs t, Sought ask ls qs ∧ Dialogue w qs s t ∧
      (worked qs = false ∧
          (stage reason ask ls next).run w none s = (.done (.error (.login reason)), t) ∨
        worked qs = true ∧ (stage reason ask ls next).run w none s = next.run w none t) := by
  obtain ⟨qs, t, hsought, hdialogue, hrun⟩ := first_run hw ask ls s
  refine ⟨qs, t, hsought, hdialogue, ?_⟩
  rw [stage, run_bind, hrun, Ended.andThen_done]
  cases worked qs with
  | false => exact .inl ⟨rfl, rfl⟩
  | true => exact .inr ⟨rfl, rfl⟩

end run

/-! ## All stages -/

/-- The attempts of a stage; there are none if the stage is not reached. -/
def Stage (reached : Bool) (ask : String → Call) (ls : List String) (qs : List (Attempt σ)) : Prop :=
  if reached = true then Sought ask ls qs else qs = []

namespace Stage

variable {reached : Bool} {ask : String → Call} {ls : List String} {q : Attempt σ}
  {qs : List (Attempt σ)}

theorem unreached (h : reached = false) : Stage reached ask ls ([] : List (Attempt σ)) := by
  rw [Stage, h]
  rfl

theorem of_sought (hreached : reached = true) (h : Sought ask ls qs) : Stage reached ask ls qs := by
  rwa [Stage, if_pos hreached]

theorem sought (h : Stage reached ask ls qs) (hq : q ∈ qs) : Sought ask ls qs := by
  by_cases hreached : reached = true
  · rwa [Stage, if_pos hreached] at h
  · rw [Stage, if_neg hreached] at h
    rw [h] at hq
    cases hq

theorem reached_of_worked (h : Stage reached ask ls qs) (hqs : worked qs = true) : reached = true := by
  by_contra hreached
  rw [Stage, if_neg hreached] at h
  rw [h] at hqs
  cases hqs

theorem eq_nil (h : Stage reached ask [] qs) : qs = [] := by
  rcases qs with _ | ⟨q, qs⟩
  · rfl
  · exact (h.sought List.mem_cons_self).eq_nil

end Stage

/-- All that a login asks: for the login page, and as long as one attempt of each stage works, for the
locators of the next; at last for the page to settle. -/
structure Course (login : LoginSettings) (url : String) (navigationTimeout : Nat)
    (opening : Attempt σ) (users passwords submits settling : List (Attempt σ)) : Prop where
  opens : opening.call = .goto url .domContentLoaded navigationTimeout
  fillsUser : Stage opening.reply.works (.fill · login.username login.timeout) login.usernameLocators users
  fillsPassword : Stage (worked users) (.fill · login.password login.timeout) login.passwordLocators
    passwords
  submit : Stage (worked passwords) (.click · login.timeout) login.submitLocators submits
  settles : settling.map (·.call) =
    if worked submits = true then [.waitForLoad .networkIdle navigationTimeout] else []

/-- What a login comes to: the error of the first stage that fails, if one does. -/
inductive ComesTo (url : String) (opening : Attempt σ) (users passwords submits : List (Attempt σ)) :
    Except RunError Unit → Prop
  | unopened {e : BrowserError} (h : opening.reply = .failed e) :
      ComesTo url opening users passwords submits
        (.error (.login ("could not open " ++ url ++ ": " ++ e.message)))
  | noUser (hopening : opening.reply.works = true) (h : worked users = false) :
      ComesTo url opening users passwords submits (.error (.login "no username field matched"))
  | noPassword (husers : worked users = true) (h : worked passwords = false) :
      ComesTo url opening users passwords submits (.error (.login "no password field matched"))
  | noSubmit (hpasswords : worked passwords = true) (h : worked submits = false) :
      ComesTo url opening users passwords submits (.error (.login "no submit control matched"))
  | loggedIn (h : worked submits = true) : ComesTo url opening users passwords submits (.ok ())

section Course

variable {login : LoginSettings} {url : String} {navigationTimeout : Nat} {opening : Attempt σ}
  {users passwords submits settling : List (Attempt σ)} {result : Except RunError Unit}

theorem ComesTo.ok_iff (h : ComesTo url opening users passwords submits result)
    (hcourse : Course login url navigationTimeout opening users passwords submits settling) :
    result = .ok () ↔ opening.reply.works = true ∧ worked users = true ∧ worked passwords = true ∧
      worked submits = true := by
  cases h with
  | unopened h => simp [h, Reply.works]
  | noUser _ h => simp [h]
  | noPassword _ h => simp [h]
  | noSubmit _ h => simp [h]
  | loggedIn h =>
    have hpasswords := hcourse.submit.reached_of_worked h
    have husers := hcourse.fillsPassword.reached_of_worked hpasswords
    exact iff_of_true rfl ⟨hcourse.fillsUser.reached_of_worked husers, husers, hpasswords, h⟩

theorem Course.typed
    (h : Course login url navigationTimeout opening users passwords submits settling) {q : Attempt σ}
    (hq : q ∈ opening :: (users ++ (passwords ++ (submits ++ settling)))) {l text : String}
    {timeout : Nat} (hcall : q.call = .fill l text timeout) :
    q ∈ users ∧ text = login.username ∨ q ∈ passwords ∧ text = login.password := by
  simp only [List.mem_cons, List.mem_append] at hq
  rcases hq with rfl | hq | hq | hq | hq
  · rw [h.opens] at hcall
    cases hcall
  · obtain ⟨l', -, hask⟩ := (h.fillsUser.sought hq).exists_locator hq
    rw [hask] at hcall
    cases hcall
    exact .inl ⟨hq, rfl⟩
  · obtain ⟨l', -, hask⟩ := (h.fillsPassword.sought hq).exists_locator hq
    rw [hask] at hcall
    cases hcall
    exact .inr ⟨hq, rfl⟩
  · obtain ⟨l', -, hask⟩ := (h.submit.sought hq).exists_locator hq
    rw [hask] at hcall
    cases hcall
  · have hsettling := List.mem_map_of_mem (f := fun q : Attempt σ => q.call) hq
    rw [h.settles, hcall] at hsettling
    split at hsettling <;> simp at hsettling

end Course

/-! ## Stage by stage -/

section perform

variable (login : LoginSettings) (navigationTimeout : Nat)

/-- The end of a login: the page is given time to settle. -/
def settle : Routine (Except RunError Unit) :=
  (request (.waitForLoad .networkIdle navigationTimeout)).bind fun _ => done (.ok ())

def submit : Routine (Except RunError Unit) :=
  stage "no submit control matched" (.click · login.timeout) login.submitLocators
    (settle navigationTimeout)

def fillPassword : Routine (Except RunError Unit) :=
  stage "no password field matched" (.fill · login.password login.timeout) login.passwordLocators
    (submit login navigationTimeout)

def fillUser : Routine (Except RunError Unit) :=
  stage "no username field matched" (.fill · login.username login.timeout) login.usernameLocators
    (fillPassword login navigationTimeout)

theorem perform_eq (targetUrl : String) : perform login targetUrl navigationTimeout =
    (request (.goto (login.loginUrl.getD targetUrl) .domContentLoaded navigationTimeout)).bind fun
      | .error e => done (.error (.login
          ("could not open " ++ login.loginUrl.getD targetUrl ++ ": " ++ e.message)))
      | .ok _ => fillUser login navigationTimeout := rfl

variable {w : World σ} (hw : w.Returning)

include hw

theorem settle_run (s : Session σ) : ∃ q t, q.call = .waitForLoad .networkIdle navigationTimeout ∧
    Dialogue w [q] s t ∧ (settle navigationTimeout).run w none s = (.done (.ok ()), t) := by
  obtain ⟨q, t, hcall, hdialogue, ⟨_, -, hrun⟩ | ⟨_, -, hrun⟩⟩ :=
    request_run hw (.waitForLoad .networkIdle navigationTimeout) s
  all_goals
    refine ⟨q, t, hcall, hdialogue, ?_⟩
    rw [settle, run_bind, hrun, Ended.andThen_done]
    rfl

/-- A login follows its course, and comes to what its stages tell. -/
theorem perform_run (targetUrl : String) (s : Session σ) :
    ∃ opening users passwords submits settling result t,
      (perform login targetUrl navigationTimeout).run w none s = (.done result, t) ∧
      Dialogue w (opening :: (users ++ (passwords ++ (submits ++ settling)))) s t ∧
      Course login (login.loginUrl.getD targetUrl) navigationTimeout opening users passwords submits
        settling ∧
      ComesTo (login.loginUrl.getD targetUrl) opening users passwords submits result := by
  rw [perform_eq]
  -- each stage either ends the login, with no attempts in those after it, or leads on
  obtain ⟨opening, s₁, hopens, h₁, ⟨e, hreply, hrun₁⟩ | ⟨v, hreply, hrun₁⟩⟩ := request_run hw
    (.goto (login.loginUrl.getD targetUrl) .domContentLoaded navigationTimeout) s
  all_goals rw [run_bind, hrun₁, Ended.andThen_done]
  · have hclosed : opening.reply.works = false := by rw [hreply]; rfl
    exact ⟨opening, [], [], [], [], _, s₁, rfl, h₁,
      ⟨hopens, .unreached hclosed, .unreached rfl, .unreached rfl, rfl⟩, .unopened hreply⟩
  have hopened : opening.reply.works = true := by rw [hreply]; rfl
  obtain ⟨users, s₂, husers, h₂, ⟨hu, hrun₂⟩ | ⟨hu, hrun₂⟩⟩ := stage_run hw "no username field matched"
    (.fill · login.username login.timeout) login.usernameLocators (fillPassword login navigationTimeout) s₁
  · exact ⟨opening, users, [], [], [], _, s₂, hrun₂, h₁.append (by simpa using h₂),
      ⟨hopens, .of_sought hopened husers, .unreached hu, .unreached rfl, rfl⟩, .noUser hopened hu⟩
  obtain ⟨passwords, s₃, hpasswords, h₃, ⟨hp, hrun₃⟩ | ⟨hp, hrun₃⟩⟩ :=
    stage_run hw "no password field matched" (.fill · login.password login.timeout)
      login.passwordLocators (submit login navigationTimeout) s₂
  · exact ⟨opening, users, passwords, [], [], _, s₃, hrun₂.trans hrun₃,
      h₁.append (h₂.append (by simpa using h₃)),
      ⟨hopens, .of_sought hopened husers, .of_sought hu hpasswords, .unreached hp, rfl⟩,
      .noPassword hu hp⟩
  obtain ⟨submits, s₄, hsubmits, h₄, ⟨hs, hrun₄⟩ | ⟨hs, hrun₄⟩⟩ :=
    stage_run hw "no submit control matched" (.click · login.timeout) login.submitLocators
      (settle navigationTimeout) s₃
  · exact ⟨opening, users, passwords, submits, [], _, s₄,
      hrun₂.trans (hrun₃.trans hrun₄),
      h₁.append (h₂.append (h₃.append (by simpa using h₄))),
      ⟨hopens, .of_sought hopened husers, .of_sought hu hpasswords, .of_sought hp hsubmits,
        by rw [hs]; rfl⟩, .noSubmit hp hs⟩
  obtain ⟨q, t, hsettles, h₅, hrun₅⟩ := settle_run navigationTimeout hw s₄
  exact ⟨opening, users, passwords, submits, [q], _, t,
    hrun₂.trans (hrun₃.trans (hrun₄.trans hrun₅)),
    h₁.append (h₂.append (h₃.append (h₄.append h₅))),
    ⟨hopens, .of_sought hopened husers, .of_sought hu hpasswords, .of_sought hp hsubmits,
      by rw [hs, List.map_singleton, hsettles]; rfl⟩, .loggedIn hs⟩

end perform

/-- A login asks for the login page (the page under test if there is none of its own), and then fills in
the name of the user, fills in the password and submits, each at the locators of its list in order up to
and including the first that works. A stage without one ends the login with an error of its own, and
nothing is asked any more. After the last stage the page is given time to settle, whatever comes of
that. The name is typed in the first stage only, and the password in the second only. -/
theorem perform_in_stages (login : LoginSettings) (targetUrl : String) (navigationTimeout : Nat)
    {w : World σ} (hw : w.Returning) (s : Session σ) :
    ∃ opening users passwords submits settling result t,
      (perform login targetUrl navigationTimeout).run w none s = (.done result, t) ∧
      let url := login.loginUrl.getD targetUrl
      let qs := opening :: (users ++ (passwords ++ (submits ++ settling)))
      Dialogue w qs s t ∧ t.events = s.events ++ qs.map (·.event) ∧
      Course login url navigationTimeout opening users passwords submits settling ∧
      ComesTo url opening users passwords submits result ∧
      (result = .ok () ↔ opening.reply.works = true ∧ (∃ q ∈ users, q.reply.works = true) ∧
        (∃ q ∈ passwords, q.reply.works = true) ∧ ∃ q ∈ submits, q.reply.works = true) ∧
      (∀ q ∈ qs, ∀ l text timeout, q.call = .fill l text timeout →
        q ∈ users ∧ text = login.username ∨ q ∈ passwords ∧ text = login.password) ∧
      (login.usernameLocators = [] → users = []) ∧ (login.passwordLocators = [] → passwords = []) ∧
      (login.submitLocators = [] → submits = []) := by
  obtain ⟨opening, users, passwords, submits, settling, result, t, hrun, hdialogue, hcourse,
    hresult⟩ := perform_run login navigationTimeout hw targetUrl s
  refine ⟨opening, users, passwords, submits, settling, result, t, hrun, hdialogue,
    hdialogue.events, hcourse, hresult, ?_, ?_, ?_, ?_, ?_⟩
  · simp only [hresult.ok_iff hcourse, worked_iff]
  · exact fun q hq l text timeout hcall => hcourse.typed hq hcall
  · exact fun hnil => (hnil ▸ hcourse.fillsUser).eq_nil
  · exact fun hnil => (hnil ▸ hcourse.fillsPassword).eq_nil
  · exact fun hnil => (hnil ▸ hcourse.submit).eq_nil

end Login

/-! ## A page with a form -/

namespace Browser.Script

theorem returning_world {p : Script} (h : ∀ r ∈ p.rules, r.behavior ≠ .hang)
    (hcalm : ∀ r ∈ p.rules, ∀ b, r.behavior ≠ .breakDown b) (blocked : Bool) (opening : Timestamp) :
    (p.world blocked opening).Returning where
  calm := calm_world hcalm blocked opening
  ends := by
    intro uses time c
    have hbehavior : ((pick c p.rules uses).1.map (·.behavior)).getD .succeed ≠ .hang := by
      rcases hpick : (pick c p.rules uses).1 with _ | r
      · simp
      · exact h r (pick_mem hpick)
    exact ⟨_, if_neg (by simpa using hbehavior)⟩

/-- A page that refuses the first field for a name, as if the browser were gone, and the first button,
and that never settles. -/
def restless : Script where
  rules := [⟨"fill", "css=a", none, 0, .fail .disconnected⟩,
    ⟨"click", "css=x", none, 5, .fail (.driver "no")⟩,
    ⟨"wait_for_load", "networkidle", none, 0, .fail (.timeout "wait_for_load" 9)⟩]
  texts := []
  echoes := []
  screenshot := []

end Browser.Script

/-- The second locators work, so that the third are not tried, and that the page does not settle is no
matter. -/
theorem Login.perform_in_stages_restless :
    let login : LoginSettings :=
      { username := "ann", password := "pw", usernameLocators := ["css=a", "css=b", "css=c"]
        passwordLocators := ["css=p"], submitLocators := ["css=x", "css=y", "css=z"] }
    let w := Browser.Script.restless.world false ⟨0, 0⟩
    ∃ qs t, Dialogue w qs ({ page := [] } : Session (List Nat)) t ∧
      qs.map (·.call) = [.goto "https://x.test/" .domContentLoaded 9, .fill "css=a" "ann" 5000,
        .fill "css=b" "ann" 5000, .fill "css=p" "pw" 5000, .click "css=x" 5000, .click "css=y" 5000,
        .waitForLoad .networkIdle 9] ∧
      (perform login "https://x.test/" 9).run w none { page := [] } = (.done (.ok ()), t) := by
  intro login w
  have hw : w.Returning := Browser.Script.returning_world (by simp [Browser.Script.restless])
    (by simp [Browser.Script.restless]) _ _
  obtain ⟨opening, users, passwords, submits, settling, result, t, hrun, hdialogue, hevents, -, -, -⟩ :=
    perform_in_stages login "https://x.test/" 9 hw { page := [] }
  refine ⟨_, t, hdialogue, ?_, ?_⟩
  · have hasked : ((perform login "https://x.test/" 9).run w none { page := [] }).2.requests =
        [.goto "https://x.test/" .domContentLoaded 9, .fill "css=a" "ann" 5000,
          .fill "css=b" "ann" 5000, .fill "css=p" "pw" 5000, .click "css=x" 5000, .click "css=y" 5000,
          .waitForLoad .networkIdle 9] := by decide +kernel
    rw [hrun, Session.requests, hevents] at hasked
    simpa [Request.event, Function.comp_def] using hasked
  · have hend : ((perform login "https://x.test/" 9).run w none { page := [] }).1.rec
        (motive := fun _ => Bool) (·.isOk) (fun _ => false) = true := by decide +kernel
    rw [hrun] at hend
    rw [hrun]
    rcases result with e | ⟨⟩
    · cases hend
    · rfl

end PlainSteps
