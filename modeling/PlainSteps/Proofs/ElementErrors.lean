import PlainSteps.Proofs.ConditionChains

/-!
# What an error tells of the page

When the element of a step is not found, its error names the target in the words of the author, and
neither the locators that were tried nor what the browser said.

* `Reply.blank` : a reply without the texts of an error. Errors of one kind differ in their texts only.
* `Action.concluded?` : how an action on an element ends, by the replies to its attempts. The locators
  have no part in it; `Step.perform_concluded` says that it is so, by induction on the action.
* `Step.Leaks` : a wait for an element fails, and not for want of time. This error is passed on as it is
  (`Action.concluded?_failed`).
* `Action.concluded?_blank` : otherwise the texts of errors have no part in it either.
* `CaseRun.errors_alike` : two runs with replies of the same kinds record the same error, unless it leaks.
-/

namespace PlainSteps

variable {σ σ' : Type}

/-! ## Replies of one kind -/

/-- An error without its texts. -/
def BrowserError.blank : BrowserError → BrowserError
  | timeout _ ms => timeout "" ms
  | launch _ => launch ""
  | navigation _ _ => navigation "" ""
  | driver _ => driver ""
  | disconnected => disconnected
  | notInstalled _ => notInstalled ""
  | io _ => io ""
  | json _ => json ""

@[simp] theorem BrowserError.isFatal_blank (e : BrowserError) : e.blank.isFatal = e.isFatal := by
  cases e <;> rfl

@[simp] theorem BrowserError.isTimeout_blank (e : BrowserError) :
    e.blank.isTimeout = e.isTimeout := by
  cases e <;> rfl

/-- A reply without the texts of an error, and without what a request brings back that succeeds. -/
def Reply.blank : Reply → Reply
  | ok _ => ok .nothing
  | failed e => failed e.blank
  | late => late

namespace Reply

def isFatal : Reply → Bool
  | failed e => e.isFatal
  | ok _ | late => false

@[simp] theorem isFatal_blank (reply : Reply) : reply.blank.isFatal = reply.isFatal := by
  cases reply with
  | failed e => exact e.isFatal_blank
  | _ => rfl

theorem forall_of_blank {replies replies' : List Reply}
    (h : replies'.map (·.blank) = replies.map (·.blank))
    (hfatal : ∀ reply ∈ replies, reply.isFatal = false) :
    ∀ reply ∈ replies', reply.isFatal = false := by
  intro reply hreply
  have hmem : reply.blank ∈ replies.map (·.blank) := h ▸ List.mem_map_of_mem hreply
  obtain ⟨reply', hreply', hblank⟩ := List.mem_map.mp hmem
  rw [← isFatal_blank, ← hblank, isFatal_blank]
  exact hfatal reply' hreply'

theorem exists_failed_of_blank {last : Option Reply} {e : BrowserError}
    (h : last.map (·.blank) = some (.failed e.blank)) :
    ∃ e', last = some (.failed e') ∧ e'.blank = e.blank := by
  rcases last with _ | ⟨v | e' | _⟩
  · cases h
  · cases h
  · exact ⟨e', rfl, by simpa [blank] using h⟩
  · cases h

end Reply

theorem Verdict.exists_failed {v : Verdict} (h : v.status = .fail) : ∃ e, v = .failed e := by
  cases v with
  | failed e => exact ⟨e, rfl⟩
  | _ => cases h

namespace Step

/-- A wait for an element that ends with an error of the browser other than a timeout. -/
def Leaks (kind : ActionKind) (last : Option Reply) : Prop :=
  kind = .waitFor ∧ ∃ e, last = some (.failed e) ∧ e.isTimeout = false

theorem leaks_blank {kind : ActionKind} {last : Option Reply} :
    Leaks kind (last.map (·.blank)) ↔ Leaks kind last := by
  rcases last with _ | ⟨v | e | _⟩ <;> simp [Leaks, Reply.blank]

/-- What a check or a wait comes to, by the reply to its one attempt, if there is one. -/
def presented (kind : ActionKind) (target : Target) (explain : BrowserError → StepError)
    (late : BrowserError) : Option Reply → Verdict
  | none => .failed (.missing kind target)
  | some (.ok _) => .done
  | some (.failed e) => .failed (explain e)
  | some .late => .failed (explain late)

/-- What is waited for, in the words of an error. -/
def waiting (target : Target) (state : ElementState) : String :=
  "waiting for " ++ target.display ++ " to be " ++ state.word

/-- How a wait for an element ends. -/
def waited (t : ExecutionSettings) (target : Target) (state : ElementState) : Option Reply → Verdict :=
  presented .waitFor target (.onWait (waiting target state))
    (.timeout (waiting target state) t.waitTimeout)

end Step

/-- How an action on an element ends, by the replies to its attempts in order. -/
def Action.concluded? (t : ExecutionSettings) : Action → List Reply → Option Verdict
  | click target, replies => some (.ofFound (Step.found .click target replies.getLast?))
  | fill _ target, replies => some (.ofFound (Step.found .fill target replies.getLast?))
  | store source _, replies => some (.ofFound (Step.found .store source replies.getLast?))
  | verify target, replies => some (.ofFound (Step.found .verify target replies.getLast?))
  | waitFor target state, replies => some (Step.waited t target state replies.getLast?)
  | conditional _ _ consequence, .ok _ :: replies => consequence.concluded? t replies
  | conditional _ _ _, _ => some (.skipped .conditionNotMet)
  | navigate _, _ | waitForLoad, _ | waitDuration _, _ | unknown _, _ => none

/-- The replies to the attempts of a routine, in order. -/
def Routine.replies {α : Type} (w : World σ) (r : Routine α) (s : Session σ) : List Reply :=
  (r.attempted w s).map (·.reply)

/-! ## How an action ends -/

namespace Step

open Routine

section present

variable {w : World σ} (x : Context) (kind : ActionKind) (target : Target) (state : ElementState)
  (operation : String) (explain : BrowserError → StepError)

theorem present_of_some {l : String} (h : firstLocator? x kind target = some l) :
    present x kind target state operation explain =
      (ask (.waitFor l state x.execution.waitTimeout) (some (x.execution.waitTimeout + grace))).bind
        fun reply => done (presented kind target explain
          (.timeout operation x.execution.waitTimeout) (some reply)) := by
  simp only [present, h, bounded_bind]
  congr 1
  funext reply
  cases reply <;> rfl

theorem present_run (hw : w.Calm) (s : Session σ) :
    ∃ qs t, (present x kind target state operation explain).attempted w s = qs ∧ Series w qs s t ∧
      (present x kind target state operation explain).run w none s =
        (.done (presented kind target explain (.timeout operation x.execution.waitTimeout)
          (qs.getLast?.map (·.reply))), t) := by
  rcases hl : firstLocator? x kind target with _ | l
  · simp only [present, hl]
    exact ⟨[], s, rfl, .nil s, rfl⟩
  · obtain ⟨q, t, hfirst, -, hseries, hrun⟩ :=
      ask_run hw (c := .waitFor l state x.execution.waitTimeout) rfl s
    rw [present_of_some x kind target state operation explain hl, attempted_bind_done, run_bind,
      hrun]
    exact ⟨[q], t, hfirst, hseries, rfl⟩

theorem presented_onElement (operation : String) (ms : Nat) (last : Option Reply) :
    presented kind target (.onElement kind target) (.timeout operation ms) last =
      .ofFound (found kind target last) := by
  rcases last with _ | ⟨v | e | _⟩ <;> rfl

end present

theorem handled_concluded {action : Action} {target : Target} {kind : ActionKind}
    {ask : String → Nat → Call} (h : action.handled? = some (target, kind, ask)) {x : Context}
    (hconcluded : ∀ replies, action.concluded? x.execution replies =
      some (.ofFound (found kind target replies.getLast?)))
    {w : World σ} (hw : w.Calm) (vars : Variables) (s : Session σ) :
    ∃ verdict vars' t, (perform x action vars).run w none s = (.done (verdict, vars'), t) ∧
      action.concluded? x.execution ((perform x action vars).replies w s) = some verdict := by
  obtain ⟨qs, t, vars', hqs, -, -, hrun⟩ := handled_run h x hw vars s
  exact ⟨_, vars', t, hrun, by rw [replies, hqs, hconcluded, List.getLast?_map]⟩

/-- An action on an element ends as the replies to its attempts tell. -/
theorem perform_concluded {action : Action} {p : Target × ActionKind} (haction : action.subject? = some p)
    (x : Context) {w : World σ} (hw : w.Calm) (vars : Variables) (s : Session σ) :
    ∃ verdict vars' t, (perform x action vars).run w none s = (.done (verdict, vars'), t) ∧
      action.concluded? x.execution ((perform x action vars).replies w s) = some verdict := by
  induction action generalizing s with
  | click target => exact handled_concluded rfl (fun _ => rfl) hw vars s
  | fill value target => exact handled_concluded rfl (fun _ => rfl) hw vars s
  | store source name => exact handled_concluded rfl (fun _ => rfl) hw vars s
  | verify target =>
    obtain ⟨qs, t, hqs, -, hrun⟩ := present_run x .verify target .visible
      ("verify " ++ target.display) (.onElement .verify target) hw s
    rw [presented_onElement] at hrun
    refine ⟨_, vars, t, by rw [perform, run_bind, hrun]; rfl, ?_⟩
    rw [replies, perform, attempted_bind_done, hqs, Action.concluded?, List.getLast?_map]
  | waitFor target state =>
    obtain ⟨qs, t, hqs, -, hrun⟩ := present_run x .waitFor target state (waiting target state)
      (.onWait (waiting target state)) hw s
    refine ⟨_, vars, t, (run_bind _ _ _ _ _).trans (by rw [← waiting, hrun]; rfl), ?_⟩
    rw [replies, perform, attempted_bind_done, ← waiting, hqs, Action.concluded?,
      List.getLast?_map]
    rfl
  | conditional target condition consequence ih =>
    rw [replies, perform]
    rcases hl : firstLocator? x .conditional target with _ | l
    · rw [probe_of_none _ hl]
      exact ⟨_, vars, s, rfl, rfl⟩
    · obtain ⟨q, t, hfirst, -, -, hrun⟩ :=
        ask_run hw (c := .waitFor l condition.state x.execution.candidateTimeout) rfl s
      rw [probe_of_some _ hl, bind_assoc, attempted_bind, run_bind, hfirst, hrun,
        Ended.traceThen_done, Ended.andThen_done]
      -- Only a probe that succeeds is followed by the attempts of the consequence.
      rcases hreply : q.reply with v | e | _
      · obtain ⟨verdict, vars', u, hrun', hconcluded⟩ := ih haction t
        refine ⟨verdict, vars', u, hrun', ?_⟩
        rw [List.singleton_append, List.map_cons, hreply]
        exact hconcluded
      · exact ⟨_, vars, t, rfl, by simp [attempted, hreply, Action.concluded?]⟩
      · exact ⟨_, vars, t, rfl, by simp [attempted, hreply, Action.concluded?]⟩
  | _ => cases haction

end Step

/-! ## What has a part in it -/

namespace Action

variable {target : Target} {kind : ActionKind} {t : ExecutionSettings} {replies : List Reply}

theorem not_leaks_tail {reply : Reply} (h : ¬Step.Leaks kind (reply :: replies).getLast?) :
    ¬Step.Leaks kind replies.getLast? := by
  rintro ⟨hkind, e, hlast, he⟩
  refine h ⟨hkind, e, ?_, he⟩
  rw [List.getLast?_cons, hlast]
  rfl

theorem ofFound_blank (last : Option Reply) (h : ∀ reply ∈ last, reply.isFatal = false) :
    Verdict.ofFound (Step.found kind target (last.map (·.blank))) =
      Verdict.ofFound (Step.found kind target last) := by
  rcases last with _ | ⟨v | e | _⟩
  · rfl
  · rfl
  · have he : e.isFatal = false := h _ rfl
    simp [Step.found, Reply.blank, StepError.onElement, he]
  · rfl

theorem waited_blank (state : ElementState) (last : Option Reply) (h : ¬Step.Leaks .waitFor last) :
    Step.waited t target state (last.map (·.blank)) = Step.waited t target state last := by
  rcases last with _ | ⟨v | e | _⟩
  · rfl
  · rfl
  · cases e with
    | timeout operation ms => rfl
    | _ => exact absurd ⟨rfl, _, rfl, rfl⟩ h
  · rfl

/-- Neither the texts of errors nor what requests bring back have a part in how an action ends, unless
an error leaks. -/
theorem concluded?_blank {action : Action} (haction : action.subject? = some (target, kind))
    (hfatal : ∀ reply ∈ replies, reply.isFatal = false) (hleaks : ¬Step.Leaks kind replies.getLast?) :
    action.concluded? t (replies.map (·.blank)) = action.concluded? t replies := by
  have hlast : ∀ reply ∈ replies.getLast?, reply.isFatal = false := fun reply h =>
    hfatal reply (List.mem_of_getLast? h)
  induction action generalizing replies with
  | conditional _ _ consequence ih =>
    rcases replies with _ | ⟨v | e | _, replies⟩
    · rfl
    · obtain ⟨-, hrest⟩ := List.forall_mem_cons.mp hfatal
      exact ih haction hrest (not_leaks_tail hleaks) fun reply h => hrest reply (List.mem_of_getLast? h)
    · rfl
    · rfl
  | waitFor target' state =>
    cases haction
    simp only [concluded?, List.getLast?_map, waited_blank state _ hleaks]
  | click target' => simp only [concluded?, List.getLast?_map, ofFound_blank _ hlast]
  | fill value target' => simp only [concluded?, List.getLast?_map, ofFound_blank _ hlast]
  | store source name => simp only [concluded?, List.getLast?_map, ofFound_blank _ hlast]
  | verify target' => simp only [concluded?, List.getLast?_map, ofFound_blank _ hlast]
  | _ => rfl

theorem ofFound_failed {last : Option Reply} (h : ∀ reply ∈ last, reply.isFatal = false)
    {e : StepError} (he : Verdict.ofFound (Step.found kind target last) = .failed e) :
    e = .missing kind target := by
  rcases last with _ | ⟨v | e' | _⟩
  · cases he
    rfl
  · cases he
  · have hfatal : ¬e'.isFatal = true := by simpa [Reply.isFatal] using h _ rfl
    simp only [Step.found, StepError.onElement, if_neg hfatal] at he
    cases he
    rfl
  · cases he
    rfl

theorem waited_failed {state : ElementState} {last : Option Reply} {e : StepError}
    (he : Step.waited t target state last = .failed e) :
    e = .missing .waitFor target ∨ (∃ ms, e = .timeout (Step.waiting target state) ms) ∨
      ∃ e', last = some (.failed e') ∧ e'.isTimeout = false ∧ e = .browser e'.message := by
  rcases last with _ | ⟨v | e' | _⟩
  · cases he
    exact .inl rfl
  · cases he
  · cases e' with
    | timeout operation ms =>
      cases he
      exact .inr (.inl ⟨ms, rfl⟩)
    | _ =>
      cases he
      exact .inr (.inr ⟨_, rfl, rfl, rfl⟩)
  · cases he
    exact .inr (.inl ⟨_, rfl⟩)

/-- The errors of an action on an element: it was not found, the time for it was over, or the wait for
it failed with an error that is passed on. -/
theorem concluded?_failed {action : Action} (haction : action.subject? = some (target, kind))
    (hfatal : ∀ reply ∈ replies, reply.isFatal = false) {e : StepError}
    (h : action.concluded? t replies = some (.failed e)) :
    e = .missing kind target ∨ (∃ state ms, e = .timeout (Step.waiting target state) ms) ∨
      kind = .waitFor ∧ ∃ e', replies.getLast? = some (.failed e') ∧ e'.isTimeout = false ∧
        e = .browser e'.message := by
  have hlast : ∀ reply ∈ replies.getLast?, reply.isFatal = false := fun reply h =>
    hfatal reply (List.mem_of_getLast? h)
  induction action generalizing replies with
  | conditional _ _ consequence ih =>
    rcases replies with _ | ⟨v | e' | _, replies⟩
    · cases h
    · obtain ⟨-, hrest⟩ := List.forall_mem_cons.mp hfatal
      rcases ih haction hrest h fun reply h => hrest reply (List.mem_of_getLast? h) with
        hmissing | htimeout | ⟨hkind, e', he', hleaks⟩
      · exact .inl hmissing
      · exact .inr (.inl htimeout)
      · refine .inr (.inr ⟨hkind, e', ?_, hleaks⟩)
        rw [List.getLast?_cons, he']
        rfl
    · cases h
    · cases h
  | waitFor target' state =>
    cases haction
    rcases waited_failed (Option.some.inj h) with hmissing | ⟨ms, htimeout⟩ | hleaks
    · exact .inl hmissing
    · exact .inr (.inl ⟨state, ms, htimeout⟩)
    · exact .inr (.inr ⟨rfl, hleaks⟩)
  | click target' => cases haction; exact .inl (ofFound_failed hlast (Option.some.inj h))
  | fill value target' => cases haction; exact .inl (ofFound_failed hlast (Option.some.inj h))
  | store source name => cases haction; exact .inl (ofFound_failed hlast (Option.some.inj h))
  | verify target' => cases haction; exact .inl (ofFound_failed hlast (Option.some.inj h))
  | _ => cases h

theorem concluded?_leaks {action : Action} (haction : action.subject? = some (target, kind))
    (hkind : kind = .waitFor) {e' : BrowserError} (hlast : replies.getLast? = some (.failed e'))
    (htimeout : e'.isTimeout = false) {e : StepError}
    (h : action.concluded? t replies = some (.failed e)) : e = .browser e'.message := by
  induction action generalizing replies with
  | conditional _ _ consequence ih =>
    rcases replies with _ | ⟨v | _ | _, replies⟩
    · cases h
    · refine ih haction ?_ h
      -- The last reply is an error, so it is not that to the probe.
      rw [List.getLast?_cons] at hlast
      rcases hrest : replies.getLast? with _ | reply
      · rw [hrest] at hlast
        cases hlast
      · rwa [hrest] at hlast
    · cases h
    · cases h
  | waitFor target' state =>
    simp only [concluded?, hlast] at h
    cases e' with
    | timeout operation ms => cases htimeout
    | _ => cases h; rfl
  | _ => cases haction <;> cases hkind

theorem status_concluded?_blank (action : Action) (t : ExecutionSettings) (replies : List Reply) :
    (action.concluded? t (replies.map (·.blank))).map (·.status) =
      (action.concluded? t replies).map (·.status) := by
  have hfound : ∀ (kind : ActionKind) (target : Target) (last : Option Reply),
      (Verdict.ofFound (Step.found kind target (last.map (·.blank)))).status =
        (Verdict.ofFound (Step.found kind target last)).status := by
    intro kind target last
    rcases last with _ | ⟨v | e | _⟩ <;> rfl
  induction action generalizing replies with
  | conditional _ _ consequence ih =>
    rcases replies with _ | ⟨v | e | _, replies⟩
    · rfl
    · exact ih replies
    · rfl
    · rfl
  | waitFor target state =>
    rw [concluded?, concluded?, List.getLast?_map]
    rcases replies.getLast? with _ | ⟨v | e | _⟩ <;> rfl
  | click target => simp only [concluded?, List.getLast?_map, Option.map_some, hfound]
  | fill value target => simp only [concluded?, List.getLast?_map, Option.map_some, hfound]
  | store source name => simp only [concluded?, List.getLast?_map, Option.map_some, hfound]
  | verify target => simp only [concluded?, List.getLast?_map, Option.map_some, hfound]
  | _ => rfl

end Action

namespace StepError

/-- A text in which the target is shown. -/
def Names (target : Target) (text : String) : Prop :=
  ∃ before after, text = before ++ target.display ++ after

theorem names_missing (kind : ActionKind) (target : Target) :
    Names target (missing kind target).message :=
  ⟨"Could not find element to " ++ kind.verb ++ ": ", "", by rw [String.append_empty]; rfl⟩

theorem names_waiting (target : Target) (state : ElementState) (ms : Nat) :
    Names target (timeout (Step.waiting target state) ms).message := by
  have hmessage : (timeout (Step.waiting target state) ms).message =
      "Timed out after " ++ toString ms ++ " ms " ++
        ("waiting for " ++ target.display ++ " to be " ++ state.word) := rfl
  refine ⟨"Timed out after " ++ toString ms ++ " ms " ++ "waiting for ", " to be " ++ state.word, ?_⟩
  rw [hmessage]
  simp only [String.append_assoc]

end StepError

namespace CaseRun

/-- The error of a step on an element that is looked for by a hint tells nothing of the locators that
were tried or of the texts of the errors of the browser. Two steps of the same action whose attempts
have replies of the same kinds, none of them fatal, fail alike, with the same error, which shows the
hint. Only a wait that fails for another reason than want of time passes on the error of the browser. -/
theorem errors_alike {action : Action} {hint : String} {kind : ActionKind}
    (haction : action.subject? = some (.implied hint, kind)) {x x' : Step.Context}
    (hx : x'.execution = x.execution) {w : World σ} {w' : World σ'} (hw : w.Calm) (hw' : w'.Calm)
    {vars vars₁ vars' vars₁' : Variables} {s u : Session σ} {s' u' : Session σ'}
    {d d' : Option Nat} {index index' : Nat} {description description' : String}
    {result result' : StepResult}
    (hrun : runStep x w d index description action vars s = (.done (result, vars₁), u))
    (hrun' : runStep x' w' d' index' description' action vars' s' = (.done (result', vars₁'), u'))
    (hreplies : ((Step.perform x' action vars').replies w' s').map (·.blank) =
      ((Step.perform x action vars).replies w s).map (·.blank))
    (hfatal : ∀ reply ∈ (Step.perform x action vars).replies w s, reply.isFatal = false)
    (hfail : result.status = .fail) :
    let last := ((Step.perform x action vars).replies w s).getLast?
    let last' := ((Step.perform x' action vars').replies w' s').getLast?
    result'.status = .fail ∧
    (¬Step.Leaks kind last → result'.error = result.error ∧
      ∃ error, result.error = some error ∧ StepError.Names (.implied hint) error) ∧
    (∀ e, kind = .waitFor → last = some (.failed e) → e.isTimeout = false →
      result.error = some ("Browser error: " ++ e.message) ∧
      ∃ e', last' = some (.failed e') ∧ e'.blank = e.blank ∧
        result'.error = some ("Browser error: " ++ e'.message)) := by
  obtain ⟨verdict, t, hperform, hstatus, herror, -⟩ := runStep_eq_done hrun
  obtain ⟨verdict', t', hperform', hstatus', herror', -⟩ := runStep_eq_done hrun'
  obtain ⟨_, _, _, hend, hconcluded⟩ := Step.perform_concluded haction x hw vars s
  obtain ⟨_, _, _, hend', hconcluded'⟩ := Step.perform_concluded haction x' hw' vars' s'
  rw [hperform] at hend
  cases hend
  rw [hperform'] at hend'
  cases hend'
  rw [hx] at hconcluded'
  generalize (Step.perform x action vars).replies w s = replies at *
  generalize (Step.perform x' action vars').replies w' s' = replies' at *
  -- Whether the steps fail is read off the replies without their texts.
  have hsame : verdict'.status = verdict.status := by
    have h := Action.status_concluded?_blank action x.execution replies
    have h' := Action.status_concluded?_blank action x.execution replies'
    rw [hreplies, h, hconcluded, hconcluded'] at h'
    exact (Option.some.inj h').symm
  obtain ⟨e, rfl⟩ := Verdict.exists_failed (hstatus.symm.trans hfail)
  obtain ⟨e', rfl⟩ := Verdict.exists_failed hsame
  have hfatal' := Reply.forall_of_blank hreplies hfatal
  have hlast : replies'.getLast?.map (·.blank) = replies.getLast?.map (·.blank) := by
    rw [← List.getLast?_map, hreplies, List.getLast?_map]
  refine ⟨hstatus'.trans hsame, ?_, ?_⟩
  · intro hleaks
    have hleaks' : ¬Step.Leaks kind replies'.getLast? := by
      rwa [← Step.leaks_blank, hlast, Step.leaks_blank]
    have hequal : StepError.message e' = e.message := by
      rw [← Action.concluded?_blank haction hfatal' hleaks', hreplies,
        Action.concluded?_blank haction hfatal hleaks, hconcluded] at hconcluded'
      cases hconcluded'
      rfl
    refine ⟨?_, e.message, herror, ?_⟩
    · rw [herror', herror, Verdict.error?, Verdict.error?, hequal]
    · rcases Action.concluded?_failed haction hfatal hconcluded with
        rfl | ⟨state, ms, rfl⟩ | ⟨hkind, e', hfailed, htimeout, -⟩
      · exact StepError.names_missing _ _
      · exact StepError.names_waiting _ _ _
      · exact absurd ⟨hkind, e', hfailed, htimeout⟩ hleaks
  · intro f hkind hf htimeout
    obtain ⟨f', hf', hff'⟩ : ∃ f', replies'.getLast? = some (.failed f') ∧ f'.blank = f.blank := by
      rw [hf] at hlast
      exact Reply.exists_failed_of_blank hlast
    have htimeout' : f'.isTimeout = false := by
      rw [← BrowserError.isTimeout_blank, hff', BrowserError.isTimeout_blank, htimeout]
    obtain rfl := Action.concluded?_leaks haction hkind hf htimeout hconcluded
    obtain rfl := Action.concluded?_leaks haction hkind hf' htimeout' hconcluded'
    exact ⟨herror, f', hf', hff', herror'⟩

/-- A page on which every wait for an element fails with an error of the driver. -/
def failing (reason : String) : Browser.Script where
  rules := [⟨"wait_for", "*", none, 0, .fail (.driver reason)⟩]
  texts := []
  echoes := []
  screenshot := []

/-- The same wait on two such pages. The errors are of one kind, and what the driver says of the locator
is recorded. -/
theorem errors_alike_failing :
    let settings : Settings := {}
    let x (locator : String) : Step.Context :=
      ⟨fun _ _ => [locator], settings.execution, "https://x.test/", none⟩
    let w (reason : String) := (failing reason).world false ⟨0, 0⟩
    let action := Action.waitFor (.implied "Dashboard") .visible
    ∃ result result' vars vars' u u',
      runStep (x "text=Dashboard") (w "no element text=Dashboard") none 0 "" action .empty
        { page := [] } = (.done (result, vars), u) ∧
      runStep (x "css=#dash") (w "no element css=#dash") none 0 "" action .empty
        { page := [] } = (.done (result', vars'), u') ∧
      result.error = some "Browser error: Driver error: no element text=Dashboard" ∧
      result'.error = some "Browser error: Driver error: no element css=#dash" := by
  intro settings x w action
  have hcalm : ∀ reason, (w reason).Calm := fun reason =>
    Browser.Script.calm_world (by simp [failing]) _ _
  have haction : action.subject? = some (.implied "Dashboard", .waitFor) := rfl
  have hrecorded : ∀ locator reason, ∃ result vars u,
      runStep (x locator) (w reason) none 0 "" action .empty { page := [] } =
        (.done (result, vars), u) := by
    intro locator reason
    obtain ⟨verdict, vars, t, hperform, -⟩ :=
      Step.perform_concluded haction (x locator) (hcalm reason) .empty { page := [] }
    obtain ⟨result, u, hstep⟩ := runStep_recorded rfl hperform 0 ""
    exact ⟨result, vars, u, hstep⟩
  obtain ⟨result, vars, u, hstep⟩ := hrecorded "text=Dashboard" "no element text=Dashboard"
  obtain ⟨result', vars', u', hstep'⟩ := hrecorded "css=#dash" "no element css=#dash"
  have hfail : result.status = .fail := by
    have hend : (match (runStep (x "text=Dashboard") (w "no element text=Dashboard") none 0 "" action
        .empty { page := [] }).1 with
      | .done p => p.1.status
      | .halted _ => .pending) = .fail := by decide +kernel
    rwa [hstep] at hend
  have hlast : ((Step.perform (x "text=Dashboard") action .empty).replies
      (w "no element text=Dashboard") { page := [] }).getLast? =
        some (.failed (.driver "no element text=Dashboard")) := by decide +kernel
  have hlast' : ((Step.perform (x "css=#dash") action .empty).replies
      (w "no element css=#dash") { page := [] }).getLast? =
        some (.failed (.driver "no element css=#dash")) := by decide +kernel
  have hx : (x "css=#dash").execution = (x "text=Dashboard").execution := rfl
  obtain ⟨-, -, hleaked⟩ := errors_alike haction hx (hcalm _) (hcalm _) hstep hstep'
    (by decide +kernel) (by decide +kernel) hfail
  obtain ⟨herror, e, he, -, herror'⟩ := hleaked _ rfl hlast rfl
  rw [hlast'] at he
  cases he
  exact ⟨result, result', vars, vars', u, u', hstep, hstep', herror.trans (by decide +kernel),
    herror'.trans (by decide +kernel)⟩

end CaseRun

end PlainSteps
