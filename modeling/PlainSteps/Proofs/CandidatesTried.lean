import PlainSteps.Command.Classify
import PlainSteps.Proofs.Requests

/-!
# The candidates of a sentence are tried

Two functions go through an action for locators. `Action.candidates` lists them for a reader, and
`Step.perform` tries them on a page. On a page that only shows its elements and refuses all else
(`World.Inert`) nothing cuts a cascade short, so the page sees what the reader sees.

* `Routine.Tries` : the locators that a routine names in its requests, in order.
* `Step.attempts_tries` : a cascade goes through all its locators, since each request fails and
  none fatally.
* `Step.present_tries` : a check names the first locator only. The usual resolver has no other for
  a check or a wait (`candidates_verify`, `candidates_waitFor`).
* `Step.perform_tries` : an action names the first locator of each condition around it, and then its
  candidates.
* `Command.Classification.candidates_tried` : the same for what a sentence is taken for.
-/

namespace PlainSteps

variable {σ α β : Type}

/-- An element is clicked, filled or read. -/
def Call.Handles : Call → Prop
  | .click _ _ | .fill _ _ _ | .readText _ _ => True
  | _ => False

/-- Elements are found whenever they are waited for, but cannot be clicked, filled or read. -/
structure World.Inert (w : World σ) : Prop where
  waits : ∀ page time l state timeout, ∃ ms v,
    (w.answer page time (.waitFor l state timeout)).delay = some ms ∧
    ms ≤ min Session.longest (timeout + Routine.grace) ∧
    (w.answer page time (.waitFor l state timeout)).outcome = .ok v
  refuses : ∀ page time c, c.Handles →
    ∃ e, (w.answer page time c).outcome = .failed e ∧ e.isFatal = false

/-- The locator that an event names. -/
def Event.locator? : Event → Option String
  | call _ c => c.locator?
  | capture _ _ => none

/-- The locators named in the requests of a session, in order. -/
def Session.located (s : Session σ) : List String :=
  s.events.filterMap Event.locator?

theorem waitFor_limited (limit : Nat) (delay : Option Nat) :
    ∃ ms ended, waitFor (some limit) delay = some (ms, ended) := by
  cases delay with
  | none => exact ⟨_, _, rfl⟩
  | some d =>
    by_cases h : d ≤ min Session.longest limit
    · exact ⟨d, true, if_pos h⟩
    · exact ⟨_, false, if_neg h⟩

/-! ## Routines -/

namespace Routine

/-- Without a deadline, a routine names these locators in its requests, in order. -/
def Tries (w : World σ) (ls : List String) (r : Routine α) : Prop :=
  ∀ s, (r.run w none s).2.located = s.located ++ ls

variable {w : World σ} {ls : List String}

theorem ask_located (c : Call) (limit : Option Nat) (s : Session σ) :
    (s.ask w none c limit).2.located = s.located ++ c.locator?.toList := by
  rw [Session.located, ask_events, List.filterMap_append]
  cases h : c.locator? <;> simp [Session.located, Event.locator?, h]

theorem tries_of_asks {r : Routine α} (hr : r.Asks fun c => c.locator? = none) : r.Tries w [] := by
  intro s
  obtain ⟨made, hmade, hall⟩ := run_events hr w none s
  have hnone : made.filterMap Event.locator? = [] := by
    refine List.filterMap_eq_nil_iff.mpr fun e he => ?_
    obtain ⟨time, c, rfl, hc⟩ := hall e he
    exact hc
  rw [Session.located, hmade, List.filterMap_append, hnone]
  rfl

/-- A routine that names no more locators may follow. -/
theorem Tries.bind {r : Routine α} {f : α → Routine β} (hr : r.Tries w ls)
    (hf : ∀ a, (f a).Asks fun c => c.locator? = none) : (r.bind f).Tries w ls := by
  intro s
  have hs := hr s
  rw [run_bind]
  rcases hrun : r.run w none s with ⟨a | h, t⟩
  · rw [hrun] at hs
    rw [Ended.andThen_done, tries_of_asks (hf a) t, hs, List.append_nil]
  · rw [hrun] at hs
    exact hs

theorem Tries.after {r : Routine α} {f : α → Routine β} {more : List String} {P : α → Prop}
    (hr : r.Tries w ls) (hend : ∀ s, ∃ a t, r.run w none s = (.done a, t) ∧ P a)
    (hf : ∀ a, P a → (f a).Tries w more) : (r.bind f).Tries w (ls ++ more) := by
  intro s
  obtain ⟨a, t, hrun, ha⟩ := hend s
  have hs := hr s
  rw [hrun] at hs
  rw [run_bind, hrun, Ended.andThen_done, hf a ha t, hs, List.append_assoc]

theorem bounded_tries (operation : String) (timeout : Nat) (c : Call) :
    (bounded operation timeout c).Tries w c.locator?.toList := by
  intro s
  have hs := ask_located (w := w) c (some (timeout + grace)) s
  rw [bounded, run_call]
  rcases hask : s.ask w none c (some (timeout + grace)) with ⟨reply | h, t⟩
  · rw [hask] at hs
    cases reply <;> exact hs
  · rw [hask] at hs
    exact hs

theorem bounded_found (hw : w.Inert) (operation : String) (timeout : Nat) (l : String)
    (state : ElementState) (s : Session σ) :
    ∃ result t, (bounded operation timeout (.waitFor l state timeout)).run w none s =
      (.done result, t) ∧ ∃ v, result = .ok v := by
  obtain ⟨ms, v, hdelay, hms, hv⟩ := hw.waits s.page s.now l state timeout
  have hwait : waitFor (some (timeout + grace)) (some ms) = some (ms, true) := if_pos hms
  rw [bounded, run_call, Session.ask, hdelay, hwait, hv]
  exact ⟨_, _, rfl, v, rfl⟩

theorem bounded_refused (hw : w.Inert) (operation : String) (timeout : Nat) {c : Call}
    (hc : c.Handles) (s : Session σ) :
    ∃ result t, (bounded operation timeout c).run w none s = (.done result, t) ∧
      ∃ e, result = .error e ∧ e.isFatal = false := by
  obtain ⟨e, he, hfatal⟩ := hw.refuses s.page s.now c hc
  obtain ⟨ms, ended, hwait⟩ := waitFor_limited (timeout + grace) (w.answer s.page s.now c).delay
  rw [bounded, run_call, Session.ask, hwait]
  simp only [Session.reaches_none, if_true, he]
  cases ended with
  | false => exact ⟨_, _, rfl, _, rfl, rfl⟩
  | true => exact ⟨_, _, rfl, e, rfl, hfatal⟩

end Routine

/-! ## Targets -/

namespace Step

open Routine

variable {w : World σ} (x : Context) (target : Target)

/-- A cascade goes through all its locators. -/
theorem attempts_tries (hw : w.Inert) (kind : ActionKind) (timeout : Nat) {ask : String → Call}
    (hhandles : ∀ l, (ask l).Handles) (hlocator : ∀ l, (ask l).locator? = some l)
    (ls : List String) : (attempts kind target timeout ask ls).Tries w ls := by
  induction ls with
  | nil => exact tries_of_asks trivial
  | cons l ls ih =>
    have hfirst := bounded_tries (w := w) (kind.verb ++ " " ++ l) timeout (ask l)
    rw [hlocator] at hfirst
    refine hfirst.after (bounded_refused hw _ timeout (hhandles l)) ?_
    rintro result ⟨e, rfl, hfatal⟩
    simp only [hfatal, Bool.false_eq_true, if_false]
    exact ih

theorem onTarget_tries (hw : w.Inert) (kind : ActionKind) {ask : String → Nat → Call}
    (hhandles : ∀ l timeout, (ask l timeout).Handles)
    (hlocator : ∀ l timeout, (ask l timeout).locator? = some l) :
    (onTarget x kind target ask).Tries w (locators x kind target).1 :=
  attempts_tries target hw kind _ (fun l => hhandles l _) (fun l => hlocator l _) _

theorem element_tries (hw : w.Inert) (kind : ActionKind) {ask : String → Nat → Call}
    (hhandles : ∀ l timeout, (ask l timeout).Handles)
    (hlocator : ∀ l timeout, (ask l timeout).locator? = some l) :
    (element x kind target ask).Tries w (locators x kind target).1 := by
  refine (onTarget_tries x target hw kind hhandles hlocator).bind fun result => ?_
  cases result <;> trivial

theorem present_tries (kind : ActionKind) (state : ElementState) (operation : String)
    (explain : BrowserError → StepError) :
    (present x kind target state operation explain).Tries w
      (firstLocator? x kind target).toList := by
  unfold present
  split
  · rename_i h
    rw [h]
    exact tries_of_asks trivial
  · rename_i l h
    rw [h]
    refine (bounded_tries _ _ (.waitFor l state _)).bind fun result => ?_
    cases result <;> trivial

theorem probe_tries (state : ElementState) :
    (probe x target state).Tries w (firstLocator? x .conditional target).toList := by
  unfold probe
  split
  · rename_i h
    rw [h]
    exact tries_of_asks trivial
  · rename_i l h
    rw [h]
    refine (bounded_tries _ _ (.waitFor l state _)).bind fun result => ?_
    cases result <;> trivial

theorem probe_holds (hw : w.Inert) (state : ElementState) {l : String}
    (hl : firstLocator? x .conditional target = some l) (s : Session σ) :
    ∃ holds t, (probe x target state).run w none s = (.done holds, t) ∧ holds = true := by
  obtain ⟨result, t, hrun, v, rfl⟩ :=
    bounded_found hw ("probe " ++ l) x.execution.candidateTimeout l state s
  refine ⟨true, t, ?_, rfl⟩
  simp only [probe, hl, run_bind, hrun]
  rfl

end Step

/-! ## Candidates -/

theorem candidates_verify (hint : String) : (candidates hint .verify).length ≤ 1 := by
  unfold candidates
  split <;> simp

theorem candidates_waitFor (hint : String) : (candidates hint .waitFor).length ≤ 1 := by
  unfold candidates
  split
  · exact Nat.zero_le 1
  · simp only
    split <;> exact Nat.le_refl 1

namespace Step

open Routine

variable (x : Context)

theorem candidates_eq_locators {action : Action} {target : Target} {kind : ActionKind}
    (h : action.subject? = some (target, kind)) :
    action.candidates x.resolve = (locators x kind target).1 := by
  unfold Action.candidates
  rw [h]
  cases target <;> rfl

theorem firstLocator?_toList {kind : ActionKind} (target : Target)
    (h : ∀ hint, (x.resolve hint kind).length ≤ 1) :
    (firstLocator? x kind target).toList = (locators x kind target).1 := by
  have hlength : (locators x kind target).1.length ≤ 1 := by
    cases target with
    | explicit locator => exact Nat.le_refl 1
    | implied hint => exact h hint
  unfold firstLocator?
  match (locators x kind target).1, hlength with
  | [], _ => rfl
  | [l], _ => rfl

variable {w : World σ} {words : StopWords}

theorem check_tries {kind : ActionKind} {target : Target} {state : ElementState}
    {operation : String} {explain : BrowserError → StepError}
    (h : ∀ hint, (x.resolve hint kind).length ≤ 1) :
    (present x kind target state operation explain).Tries w (locators x kind target).1 := by
  rw [← firstLocator?_toList x target h]
  exact present_tries x target kind state operation explain

theorem own_tries (hw : w.Inert) (hx : x.resolve = words.resolver) {action : Action}
    (h : action.conditions = []) (vars : Variables) :
    (perform x action vars).Tries w (action.candidates x.resolve) := by
  cases action with
  | click target =>
    rw [candidates_eq_locators x rfl]
    exact .bind (element_tries x target hw .click (fun _ _ => trivial) fun _ _ => rfl) fun _ => trivial
  | fill value target =>
    rw [candidates_eq_locators x rfl]
    exact .bind (element_tries x target hw .fill (fun _ _ => trivial) fun _ _ => rfl) fun _ => trivial
  | store source name =>
    rw [candidates_eq_locators x rfl]
    refine .bind (onTarget_tries x source hw .store (fun _ _ => trivial) fun _ _ => rfl) fun result => ?_
    cases result <;> trivial
  | verify target =>
    rw [candidates_eq_locators x rfl]
    exact (check_tries x fun hint => hx ▸ candidates_verify _).bind fun _ => trivial
  | waitFor target state =>
    rw [candidates_eq_locators x rfl]
    exact (check_tries x fun hint => hx ▸ candidates_waitFor _).bind fun _ => trivial
  | navigate url => exact tries_of_asks (asks_bind (asks_whole rfl) fun _ => trivial)
  | waitForLoad => exact tries_of_asks (asks_bind (asks_whole rfl) fun _ => trivial)
  | waitDuration seconds =>
    refine tries_of_asks ?_
    simp only [perform]
    split <;> trivial
  | unknown text => exact tries_of_asks trivial
  | conditional target condition consequence => cases h

/-- An action names the first locator of each condition around it, and then its candidates. -/
theorem perform_tries (hw : w.Inert) (hx : x.resolve = words.resolver) {action : Action}
    {probes : List String}
    (hprobes : action.conditions.map (firstLocator? x .conditional) = probes.map some)
    (vars : Variables) :
    (perform x action vars).Tries w (probes ++ action.candidates x.resolve) := by
  induction action generalizing probes with
  | conditional target condition consequence ih =>
    cases probes with
    | nil => cases hprobes
    | cons l probes =>
      obtain ⟨hl, hrest⟩ := List.cons.inj hprobes
      have hprobe := probe_tries (w := w) x target condition.state
      rw [hl] at hprobe
      -- The outermost condition is probed first, and holds, so that the consequence is tried.
      refine hprobe.after (probe_holds x target hw condition.state hl) ?_
      rintro holds rfl
      exact ih hrest
  | _ =>
    obtain rfl : probes = [] := List.map_eq_nil_iff.mp hprobes.symm
    exact own_tries x hw hx rfl vars

theorem exists_probes {targets : List Target}
    (h : ∀ target ∈ targets, (locators x .conditional target).1 ≠ []) :
    ∃ probes : List String, targets.map (firstLocator? x .conditional) = probes.map some := by
  induction targets with
  | nil => exact ⟨[], rfl⟩
  | cons target targets ih =>
    obtain ⟨hfirst, hrest⟩ := List.forall_mem_cons.mp h
    obtain ⟨probes, hprobes⟩ := ih hrest
    refine ⟨(locators x .conditional target).1.head hfirst :: probes, ?_⟩
    rw [List.map_cons, List.map_cons, hprobes, firstLocator?, List.head?_eq_some_head hfirst]

end Step

/-- What a reader is shown for a sentence is what its step tries. On a page that shows its elements
but refuses all else, the step names the first locator of each condition around its action, the
outermost first, and then the candidates of the sentence, in their order and each once. -/
theorem Command.Classification.candidates_tried (settings : Settings) (sentence : String)
    (x : Step.Context) (hx : x.resolve = settings.stopWords.resolver) (w : World σ) (hw : w.Inert)
    (hconditions : ∀ target ∈ (Classification.of settings sentence).action.conditions,
      (Step.locators x .conditional target).1 ≠ [])
    (index : Nat) (description : String) (vars : Variables) (s : Session σ) :
    ∃ probes : List String,
      (Classification.of settings sentence).action.conditions.map
        (Step.firstLocator? x .conditional) = probes.map some ∧
      (CaseRun.runStep x w none index description (Classification.of settings sentence).action vars
        s).2.located = s.located ++ (probes ++ (Classification.of settings sentence).candidates) := by
  obtain ⟨probes, hprobes⟩ := Step.exists_probes x hconditions
  refine ⟨probes, hprobes, ?_⟩
  have hcandidates : (Classification.of settings sentence).candidates =
      (Classification.of settings sentence).action.candidates x.resolve := by
    rw [hx]
    rfl
  rw [CaseRun.runStep_session, hcandidates]
  exact ((Step.perform_tries x hw hx hprobes vars).bind fun _ => Step.asks_close x index rfl) s

/-- A page that refuses to have its elements clicked, filled or read. -/
def Browser.Script.refusing : Browser.Script where
  rules := ["click", "fill", "read_text"].map fun word => ⟨word, "*", none, 0, .fail (.driver "no")⟩
  texts := []
  echoes := []
  screenshot := []

theorem Browser.Script.inert_refusing (blocked : Bool) (opening : Timestamp) :
    (refusing.world blocked opening).Inert where
  waits uses time l state timeout := by
    refine ⟨0, .nothing, ?_, Nat.zero_le _, ?_⟩ <;> rfl
  refuses uses time c hc := by
    refine ⟨.driver "no", ?_, rfl⟩
    cases c with
    | click l timeout => rfl
    | fill l value timeout => rfl
    | readText l timeout => rfl
    | _ => cases hc

/-- A button behind a banner, on a page where the banner is seen and nothing can be clicked. -/
theorem Command.Classification.candidates_tried_banner :
    let settings : Settings := {}
    let c := Classification.of settings "If Cookies is visible, click Accept"
    let x : Step.Context :=
      ⟨settings.stopWords.resolver, settings.execution, "https://x.test/", none⟩
    let w := Browser.Script.refusing.world false ⟨0, 0⟩
    (CaseRun.runStep x w none 0 "" c.action .empty { page := [] }).2.located =
      "text=Cookies" :: c.candidates ∧ c.candidates.length = 8 := by
  intro settings c x w
  have hconditions : c.action.conditions = [.implied "Cookies"] := by decide +kernel
  have hprobe : Step.firstLocator? x .conditional (.implied "Cookies") = some "text=Cookies" := by
    decide +kernel
  have hall : ∀ target ∈ c.action.conditions, (Step.locators x .conditional target).1 ≠ [] := by
    rw [hconditions]
    rintro target htarget hnone
    rw [List.mem_singleton.mp htarget] at hnone
    rw [Step.firstLocator?, hnone] at hprobe
    cases hprobe
  have hx : x.resolve = settings.stopWords.resolver := by dsimp only [x]
  obtain ⟨probes, hprobes, htried⟩ := candidates_tried settings
    "If Cookies is visible, click Accept" x hx w (Browser.Script.inert_refusing false ⟨0, 0⟩) hall
    0 "" .empty { page := [] }
  have hlist : c.action.conditions.map (Step.firstLocator? x .conditional) =
      [some "text=Cookies"] := by
    rw [hconditions, List.map_cons, hprobe, List.map_nil]
  obtain rfl : probes = ["text=Cookies"] :=
    (List.map_inj_right fun _ _ => Option.some.inj).mp (hprobes.symm.trans hlist)
  exact ⟨htried, by decide +kernel⟩

end PlainSteps
