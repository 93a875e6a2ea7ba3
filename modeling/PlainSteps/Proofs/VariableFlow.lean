import PlainSteps.Proofs.CaseVariables
import PlainSteps.Proofs.ObligingBrowser
import PlainSteps.Proofs.ProgressStream

/-!
# Where the variables of a case come from

`CaseRun.variables_flow`: before each step of a case a name is bound to the text that the last earlier
step to store under it had read, trimmed, and no other name is bound; and each step is read, described
and carried out with the variables as they are then.

An action stores when its innermost consequence is a store whose reading succeeds, and the conditions
around it hold (`Step.Stores`). Whatever else ends well, or badly, leaves the variables as they are
(`Step.perform_stores`). What a step stored is a fact about its place in the case (`CaseRun.StoresAt`),
and the last place to store under a name changes at the next place only if something is stored there
(`CaseRun.storedLast_succ`). The binding follows by induction on the place (`CaseRun.get?_before_iff`).
-/

namespace PlainSteps

variable {σ : Type}

namespace CaseRun

open Text

variable {r : CaseRunner} {w : World σ} {c : TestCase} {s : Session σ} {k : Nat}
  {name name' text text' : String}

/-! ## What is stored at a place -/

/-- The step at a place in a case stores a text under a name. -/
def StoresAt (r : CaseRunner) (w : World σ) (c : TestCase) (s : Session σ) (k : Nat)
    (name text : String) : Prop :=
  ∃ raw vars u, c.steps[k]? = some raw ∧ before r w c s k = some (vars, u) ∧
    Step.Stores (r.context c.id) w (some (deadline r s))
      (Sentence.classify r.rules (vars.substitute raw))
      (beginStep r w c.id k (Sentence.normalize (vars.substitute raw)) u) name text

theorem StoresAt.unique (h : StoresAt r w c s k name text) (h' : StoresAt r w c s k name' text') :
    name = name' ∧ text = text' := by
  obtain ⟨raw, vars, u, hraw, hbefore, hstores⟩ := h
  obtain ⟨raw', vars', u', hraw', hbefore', hstores'⟩ := h'
  cases hraw.symm.trans hraw'
  cases hbefore.symm.trans hbefore'
  exact hstores.unique hstores'

section oneStep

variable {raw : String} {vars vars' : Variables} {u t : Session σ} {result : StepResult}

theorem stores_of_storesAt (hraw : c.steps[k]? = some raw)
    (hbefore : before r w c s k = some (vars, u)) (h : StoresAt r w c s k name text) :
    Step.Stores (r.context c.id) w (some (deadline r s))
      (Sentence.classify r.rules (vars.substitute raw))
      (beginStep r w c.id k (Sentence.normalize (vars.substitute raw)) u) name text := by
  obtain ⟨raw', vars', u', hraw', hbefore', hstores⟩ := h
  cases hraw.symm.trans hraw'
  cases hbefore.symm.trans hbefore'
  exact hstores

theorem left_of_oneStep (hraw : c.steps[k]? = some raw)
    (hbefore : before r w c s k = some (vars, u))
    (e : oneStep r w (some (deadline r s)) c.id raw k vars u = (.done (result, vars'), t)) :
    (∃ name text, StoresAt r w c s k name text ∧ result.status = .pass ∧ result.note = none ∧
      vars' = vars.set name text) ∨
    (∀ name text, ¬StoresAt r w c s k name text) ∧ vars' = vars := by
  obtain ⟨verdict, t₁, screenshot, t₂, hperform, -, rfl, -⟩ := oneStep_eq_done e
  rcases Step.perform_stores hperform with ⟨name, text, h, rfl, hset⟩ | ⟨hnone, hsame⟩
  · exact .inl ⟨name, text, ⟨raw, vars, u, hraw, hbefore, h⟩, rfl, rfl, hset⟩
  · exact .inr ⟨fun name text h => hnone name text (stores_of_storesAt hraw hbefore h), hsame⟩

end oneStep

/-! ## The last store under a name -/

/-- A text was stored under a name before a place in a case, and nothing more since. -/
def StoredLast (r : CaseRunner) (w : World σ) (c : TestCase) (s : Session σ) (k : Nat)
    (name text : String) : Prop :=
  ∃ j < k, StoresAt r w c s j name text ∧
    ∀ i, j < i → i < k → ∀ text', ¬StoresAt r w c s i name text'

theorem storedLast_succ (h : StoresAt r w c s k name text) :
    StoredLast r w c s (k + 1) name text' ↔ text' = text := by
  constructor
  · rintro ⟨j, hj, hstores, hlast⟩
    rcases Nat.lt_or_eq_of_le (Nat.le_of_lt_succ hj) with hlt | rfl
    · exact absurd h (hlast k hlt (Nat.lt_succ_self k) text)
    · exact (hstores.unique h).2
  · rintro rfl
    exact ⟨k, Nat.lt_succ_self k, h, fun i hki hik => absurd hki (Nat.not_lt_of_le (Nat.le_of_lt_succ hik))⟩

theorem storedLast_succ_of_not (h : ∀ text, ¬StoresAt r w c s k name text) :
    StoredLast r w c s (k + 1) name text ↔ StoredLast r w c s k name text := by
  constructor
  · rintro ⟨j, hj, hstores, hlast⟩
    rcases Nat.lt_or_eq_of_le (Nat.le_of_lt_succ hj) with hlt | rfl
    · exact ⟨j, hlt, hstores, fun i hji hik => hlast i hji (Nat.lt_succ_of_lt hik)⟩
    · exact absurd hstores (h text)
  · rintro ⟨j, hj, hstores, hlast⟩
    refine ⟨j, Nat.lt_succ_of_lt hj, hstores, fun i hji hik text' => ?_⟩
    rcases Nat.lt_or_eq_of_le (Nat.le_of_lt_succ hik) with hlt | rfl
    · exact hlast i hji hlt text'
    · exact h text'

/-- Before each step of a case a name is bound to the text last stored under it, trimmed, and to
nothing if there is none. -/
theorem get?_before_iff {vars : Variables} {u : Session σ}
    (h : before r w c s k = some (vars, u)) (name value : String) :
    vars.get? name = some value ↔ ∃ text, StoredLast r w c s k name text ∧ trim text = value := by
  -- On the place: where a step stores under the name, the last store is its own, and elsewhere it is
  -- that of the place before.
  induction k generalizing vars u with
  | zero =>
    cases h
    simp [StoredLast, Variables.get?_empty]
  | succ k ih =>
    cases hraw : c.steps[k]? with
    | none =>
      have hnot : ∀ text, ¬StoresAt r w c s k name text := by
        rintro text ⟨raw, _, _, hraw', -⟩
        cases hraw.symm.trans hraw'
      rw [before_succ_of_none hraw] at h
      simp only [ih h, storedLast_succ_of_not hnot]
    | some raw =>
      obtain ⟨vars₀, u₀, result, hbefore, hstep, -⟩ := oneStep_of_before_succ hraw h
      rcases left_of_oneStep hraw hbefore hstep with ⟨name', text, hstores, -, -, rfl⟩ | ⟨hnot, rfl⟩
      · by_cases hname : name = name'
        · subst hname
          simp [Variables.get?_set_self, storedLast_succ hstores]
        · have hnot : ∀ text', ¬StoresAt r w c s k name text' := fun text' h' =>
            hname (h'.unique hstores).1
          rw [Variables.get?_set_of_ne _ _ hname]
          simp only [ih hbefore, storedLast_succ_of_not hnot]
      · simp only [ih hbefore, storedLast_succ_of_not (hnot name)]

/-! ## What is published -/

/-- A result published for a case is of a step that has begun, and describes it as its sentence reads
with the variables at its place. -/
def Described (r : CaseRunner) (w : World σ) (c : TestCase) (s : Session σ) (p : Progress) : Prop :=
  ∃ raw vars u, c.steps[p.result.index]? = some raw ∧
    before r w c s p.result.index = some (vars, u) ∧
    p.result.description = Sentence.normalize (vars.substitute raw)

theorem progress_of_emits {α : Type} {f : Session σ → α × Session σ} {ps : List Progress}
    (h : Emits f s ps) : (f s).2.progress = s.progress.map (· ++ ps) := by
  have hs := h s.progress
  exact congrArg (fun y => y.2.progress) hs

theorem description_of_oneStep {raw : String} {vars vars' : Variables} {u t : Session σ}
    {result : StepResult}
    (e : oneStep r w (some (deadline r s)) c.id raw k vars u = (.done (result, vars'), t)) :
    result.index = k ∧ result.description = Sentence.normalize (vars.substitute raw) := by
  obtain ⟨verdict, t₁, screenshot, t₂, -, -, rfl, -⟩ := oneStep_eq_done e
  exact ⟨StepResult.index_judged _ _ _ _, StepResult.description_judged _ _ _ _⟩

theorem runSteps_described {raws : List String} {vars : Variables} {u : Session σ}
    (hraws : c.steps.drop k = raws) (hbefore : before r w c s k = some (vars, u)) :
    ∃ ps, (runSteps r w (some (deadline r s)) c.id raws k vars u).session.progress =
        u.progress.map (· ++ ps) ∧ ∀ p ∈ ps, Described r w c s p := by
  induction raws generalizing k vars u with
  | nil => exact ⟨[], by simp [runSteps_nil], by simp⟩
  | cons raw rest ih =>
    have hraw : c.steps[k]? = some raw := by
      rw [← List.head?_drop, hraws, List.head?_cons]
    have hrest : c.steps.drop (k + 1) = rest := by
      rw [← List.tail_drop, hraws, List.tail_cons]
    have hannounced : Described r w c s (announcement r w c.id raw k vars u) :=
      ⟨raw, vars, u, hraw, hbefore, rfl⟩
    rw [runSteps_cons]
    rcases hstep : oneStep r w (some (deadline r s)) c.id raw k vars u with ⟨⟨result, vars'⟩ | h, t⟩
    · have hpublished := progress_of_emits (oneStep_emits hstep)
      obtain ⟨rfl, hdescription⟩ := description_of_oneStep hstep
      have hreported : Described r w c s ⟨r.runId, c.id, result⟩ :=
        ⟨raw, vars, u, hraw, hbefore, hdescription⟩
      rw [hstep] at hpublished
      by_cases hfail : result.isFail = true
      -- A failed step ends the case, but it was announced and reported like any other.
      · simp only [if_pos hfail]
        exact ⟨_, hpublished, by simp [hannounced, hreported]⟩
      · obtain ⟨ps, hps, hall⟩ :=
          ih hrest (before_succ_of_oneStep hraw hbefore hstep (by simpa using hfail))
        refine ⟨_ :: _ :: ps, ?_, List.forall_mem_cons.mpr ⟨hannounced,
          List.forall_mem_cons.mpr ⟨hreported, hall⟩⟩⟩
        simp only [if_neg hfail]
        rw [hps, hpublished, Option.map_map]
        simp [Function.comp_def]
    -- A step that the deadline cuts was announced, and is not reported.
    · have hpublished := progress_of_emits (oneStep_cut_emits hstep)
      rw [hstep] at hpublished
      exact ⟨_, hpublished, by simp [hannounced]⟩

theorem run_described {x : CaseResult} {t : Session σ} (h : run r w c s = (.done x, t)) :
    ∃ ps, t.progress = s.progress.map (· ++ ps) ∧ ∀ p ∈ ps, Described r w c s p := by
  rw [session_of_run h]
  unfold carried
  split
  · exact runSteps_described List.drop_zero rfl
  · exact ⟨[], by simp [Session.capture], by simp⟩

/-! ## Cases -/

/-- What a recorded step had to do with the variables `vars` before it and `vars'` after it. -/
structure Flow (r : CaseRunner) (w : World σ) (c : TestCase) (s : Session σ) (k : Nat) (raw : String)
    (vars vars' : Variables) (result : StepResult) : Prop where
  described : result.description = Sentence.normalize (vars.substitute raw)
  /-- The action carried out is the one that the sentence asks for with the variables put in. -/
  performed : ∃ u verdict t, before r w c s k = some (vars, u) ∧
    (Step.perform (r.context c.id) (Sentence.classify r.rules (vars.substitute raw)) vars).run w
      (some (deadline r s)) (beginStep r w c.id k (Sentence.normalize (vars.substitute raw)) u) =
        (.done (verdict, vars'), t) ∧
    result.status = verdict.status ∧ result.note = verdict.note?
  stored : ∀ name text, StoresAt r w c s k name text →
    (Sentence.classify r.rules (vars.substitute raw)).storesUnder? = some name ∧
      result.status = .pass ∧ result.note = none ∧ vars'.get? name = some (trim text) ∧
      ∀ other, other ≠ name → vars'.get? other = vars.get? other
  kept : (∀ name text, ¬StoresAt r w c s k name text) → vars' = vars
  /-- A step that failed, or passed with a note, stored nothing. -/
  unsettled : result.status = .fail ∨ result.note ≠ none → vars' = vars

theorem flow_of_oneStep {raw : String} {vars vars' : Variables} {u t : Session σ}
    {result : StepResult} (hraw : c.steps[k]? = some raw)
    (hbefore : before r w c s k = some (vars, u))
    (e : oneStep r w (some (deadline r s)) c.id raw k vars u = (.done (result, vars'), t)) :
    Flow r w c s k raw vars vars' result := by
  have hleft := left_of_oneStep hraw hbefore e
  refine ⟨(description_of_oneStep e).2, ?_, ?_, ?_, ?_⟩
  · obtain ⟨verdict, t₁, screenshot, t₂, hperform, -, rfl, -⟩ := oneStep_eq_done e
    exact ⟨u, verdict, t₁, hbefore, hperform, StepResult.status_judged _ _ _ _,
      StepResult.note_judged _ _ _ _ _ _⟩
  · intro name text h
    rcases hleft with ⟨name', text', h', hstatus, hnote, rfl⟩ | ⟨hnot, -⟩
    · obtain ⟨rfl, rfl⟩ := h.unique h'
      exact ⟨(stores_of_storesAt hraw hbefore h).storesUnder, hstatus, hnote,
        Variables.get?_set_self _ _ _, fun other hother => Variables.get?_set_of_ne _ _ hother⟩
    · exact absurd h (hnot name text)
  · intro hnot
    rcases hleft with ⟨name, text, h, -⟩ | ⟨-, hsame⟩
    · exact absurd h (hnot name text)
    · exact hsame
  · intro hunsettled
    rcases hleft with ⟨name, text, -, hstatus, hnote, -⟩ | ⟨-, hsame⟩
    · rw [hstatus, hnote] at hunsettled
      simp at hunsettled
    · exact hsame

/-- On a calm browser a case has a result. Before each of its steps a name is bound to the text last
stored under it, trimmed, and to nothing if there is none; what is published of a step describes it
with these variables; and each recorded step was carried out with them, and changed them only by what
it stored. -/
theorem variables_flow (r : CaseRunner) {w : World σ} (hw : w.Calm) (c : TestCase) (s : Session σ) :
    ∃ x t, run r w c s = (.done x, t) ∧
      (∀ k vars u, before r w c s k = some (vars, u) → ∀ name value,
        vars.get? name = some value ↔
          ∃ text, StoredLast r w c s k name text ∧ trim text = value) ∧
      (∃ ps, t.progress = s.progress.map (· ++ ps) ∧ ∀ p ∈ ps, Described r w c s p) ∧
      ∀ k result, x.steps[k]? = some result → ∃ raw vars vars', c.steps[k]? = some raw ∧
        Flow r w c s k raw vars vars' result := by
  obtain ⟨x, t, hrun⟩ := run_done_of_calm r hw c s
  refine ⟨x, t, hrun, fun k vars u h => get?_before_iff h, run_described hrun, ?_⟩
  intro k result hk
  obtain ⟨raw, vars, u, vars', u', hraw, hbefore, e⟩ := oneStep_of_recorded hrun hk
  exact ⟨raw, vars, vars', hraw, flow_of_oneStep hraw hbefore e⟩

/-- A page on which two things are for sale. -/
def sale : Browser.Script where
  rules := []
  texts := [("css=h1", " Coat "), ("css=h2", " Hat ")]
  echoes := []
  screenshot := []

/-- The second title is stored in place of the first since the banner of the sale is seen, and the
third step is described with it. -/
theorem variables_flow_sale :
    let r : CaseRunner := { CaseRunner.ofSettings {} StopWords.usual.resolver "run" "https://x.test/"
      with evidence := { captureScreenshots := false } }
    let w := sale.world false ⟨0, 0⟩
    let c : TestCase := { id := "sale", steps := ["Store css=h1 as title",
      "If css=#sale is visible, store css=h2 as title", "Click on {title}"] }
    let s : Session (List Nat) := { page := [] }
    ∃ text x t result, StoredLast r w c s 2 "title" text ∧ trim text = "Hat" ∧
      run r w c s = (.done x, t) ∧ x.steps[2]? = some result ∧
      result.description = "Click on Hat" := by
  intro r w c s
  have hw : w.Calm := Browser.Script.calm_world (by simp [sale]) _ _
  obtain ⟨x, t, hrun, hbound, -, hflow⟩ := variables_flow r hw c s
  have hvars : (before r w c s 2).map (·.1) = some ⟨[("title", "Hat")]⟩ := by decide +kernel
  obtain ⟨⟨vars, u⟩, hbefore, rfl⟩ := Option.map_eq_some_iff.mp hvars
  obtain ⟨text, hlast, htext⟩ := (hbound 2 _ u hbefore "title" "Hat").mp rfl
  have hthird : (match (run r w c s).1 with
      | .done x => (x.steps[2]?).isSome
      | .halted _ => false) = true := by decide +kernel
  rw [hrun] at hthird
  obtain ⟨result, hresult⟩ := Option.isSome_iff_exists.mp hthird
  obtain ⟨raw, vars, vars', hraw, hstep⟩ := hflow 2 result hresult
  obtain ⟨u', verdict, t', hbefore', -⟩ := hstep.performed
  cases hraw
  cases hbefore.symm.trans hbefore'
  refine ⟨text, x, t, result, hlast, htext, hrun, hresult, hstep.described.trans ?_⟩
  decide +kernel

end CaseRun

end PlainSteps
