import PlainSteps.Proofs.CaseSteps

/-!
# The variables of a case

* `Action.storesUnder?` : the name under which an action may store a text; every other name keeps its
  text (`Step.get?_of_perform`).
* `Step.Stores` : what an action stores: it is a store whose reading succeeds, or such a store after
  conditions that hold. Whatever else it does leaves the variables as they are (`Step.perform_stores`).
* `Step.reads_of_store` : a store that does not fail keeps the text that the browser answered with.
* `CaseRun.before` : the variables and the session before a step of a case, if all steps before it pass.
* `CaseRun.oneStep_of_recorded` : each recorded step was carried out from there.
* `CaseRun.get?_before` : over steps that do not store under a name, it keeps its text.
-/

namespace PlainSteps

variable {σ α : Type}

/-- The name under which an action may store a text. -/
def Action.storesUnder? : Action → Option String
  | store _ name => some name
  | conditional _ _ consequence => consequence.storesUnder?
  | navigate _ | click _ | fill _ _ | verify _ | waitFor _ _ | waitForLoad | waitDuration _
  | unknown _ => none

/-! ## Actions -/

namespace Step

open Routine

variable {x : Context} {w : World σ} {d : Option Nat} {s t : Session σ} {vars vars' : Variables}

theorem vars_of_bind_done {r : Routine Verdict} {p : Verdict × Variables}
    (e : (r.bind fun v => done (v, vars)).run w d s = (.done p, t)) : p.2 = vars := by
  rw [run_bind] at e
  obtain ⟨v, u, -, e⟩ := Ended.andThen_eq_done e
  cases e
  rfl

theorem outcome_of_ended {o : Outcome} {v : Value} (h : o.ended = .done (.ok v)) : o = .ok v := by
  cases o with
  | ok a =>
    cases h
    rfl
  | failed error => cases h
  | breakdown b => cases h

theorem answered_of_bounded {operation : String} {timeout : Nat} {c : Call} {v : Value}
    (e : (bounded operation timeout c).run w d s = (.done (.ok v), t)) :
    (w.answer s.page s.now c).outcome = .ok v := by
  rw [bounded, run_call] at e
  obtain ⟨reply, u, hask, e⟩ := Ended.andThen_eq_done e
  cases reply with
  | ok a =>
    obtain rfl : a = v := by
      cases e
      rfl
    simp only [Session.ask] at hask
    split at hask
    · split at hask <;> cases hask
    · split at hask
      · rename_i ms ended _ _
        obtain ⟨hended, -⟩ := Prod.mk.inj hask
        cases ended with
        | false => cases hended
        | true => exact outcome_of_ended hended
      · cases hask
  | failed error => cases e
  | late => cases e

theorem answered_of_attempts {kind : ActionKind} {target : Target} {timeout : Nat}
    {ask : String → Call} {ls : List String} {v : Value}
    (e : (attempts kind target timeout ask ls).run w d s = (.done (.ok v), t)) :
    ∃ l ∈ ls, ∃ page now, (w.answer page now (ask l)).outcome = .ok v := by
  induction ls generalizing s with
  | nil => cases e
  | cons l ls ih =>
    rw [attempts, run_bind] at e
    obtain ⟨result, u, hl, e⟩ := Ended.andThen_eq_done e
    cases result with
    | ok a =>
      cases e
      exact ⟨l, List.mem_cons_self, s.page, s.now, answered_of_bounded hl⟩
    | error error =>
      simp only at e
      split at e
      · cases e
      · obtain ⟨l', hl', h⟩ := ih e
        exact ⟨l', List.mem_cons_of_mem l hl', h⟩

/-- In a session the reading of a source comes to a text: the browser answers with it when it is asked
for the text at one of the locators of the source. -/
def Reads (x : Context) (w : World σ) (d : Option Nat) (source : Target) (s : Session σ)
    (text : String) : Prop :=
  ∃ v t, (onTarget x .store source .readText).run w d s = (.done (.ok v), t) ∧ v.textOr = text ∧
    ∃ l ∈ (locators x .store source).1, ∃ page now,
      (w.answer page now (.readText l (locators x .store source).2)).outcome = .ok v

/-- Carried out in a session, an action stores a text under a name: it is a store, or the conditions
around a store hold, and the reading of the source comes to the text. -/
inductive Stores (x : Context) (w : World σ) (d : Option Nat) :
    Action → Session σ → String → String → Prop
  | store {source : Target} {name text : String} {s : Session σ} (h : Reads x w d source s text) :
    Stores x w d (.store source name) s name text
  | conditional {target : Target} {condition : Condition} {consequence : Action}
      {name text : String} {s t : Session σ}
      (hholds : (probe x target condition.state).run w d s = (.done true, t))
      (h : Stores x w d consequence t name text) :
    Stores x w d (.conditional target condition consequence) s name text

section stores

variable {action : Action} {name name' text text' : String}

theorem Reads.unique {source : Target} (h : Reads x w d source s text)
    (h' : Reads x w d source s text') : text = text' := by
  obtain ⟨v, t, hrun, rfl, -⟩ := h
  obtain ⟨v', t', hrun', rfl, -⟩ := h'
  cases hrun.symm.trans hrun'
  rfl

namespace Stores

theorem unique (h : Stores x w d action s name text) (h' : Stores x w d action s name' text') :
    name = name' ∧ text = text' := by
  induction h with
  | store h =>
    cases h' with
    | store h' => exact ⟨rfl, h.unique h'⟩
  | conditional hholds _ ih =>
    cases h' with
    | conditional hholds' h' =>
      cases hholds.symm.trans hholds'
      exact ih h'

theorem storesUnder (h : Stores x w d action s name text) : action.storesUnder? = some name := by
  induction h with
  | store h => rfl
  | conditional hholds h ih => exact ih

theorem not_of_none (h : action.storesUnder? = none) : ¬Stores x w d action s name text := by
  intro hstores
  cases h.symm.trans hstores.storesUnder

theorem not_of_error {source : Target} {error : StepError} {u : Session σ}
    (h : (onTarget x .store source .readText).run w d s = (.done (.error error), u)) :
    ¬Stores x w d (.store source name') s name text := by
  intro hstores
  cases hstores with
  | store hreads =>
    obtain ⟨v, u', hread, -⟩ := hreads
    cases h.symm.trans hread

theorem of_holds {target : Target} {condition : Condition} {consequence : Action} {u : Session σ}
    (hholds : (probe x target condition.state).run w d s = (.done true, u))
    (h : Stores x w d (.conditional target condition consequence) s name text) :
    Stores x w d consequence u name text := by
  cases h with
  | conditional hholds' h =>
    cases hholds.symm.trans hholds'
    exact h

theorem not_of_not_holds {target : Target} {condition : Condition} {consequence : Action}
    {u : Session σ} (hholds : (probe x target condition.state).run w d s = (.done false, u)) :
    ¬Stores x w d (.conditional target condition consequence) s name text := by
  intro h
  cases h with
  | conditional hholds' h => cases hholds.symm.trans hholds'

end Stores

/-- What an action has done to the variables when it has ended: it stored a text, or they are as
before. -/
def Left (x : Context) (w : World σ) (d : Option Nat) (action : Action) (s : Session σ)
    (verdict : Verdict) (vars vars' : Variables) : Prop :=
  (∃ name text, Stores x w d action s name text ∧ verdict = .done ∧ vars' = vars.set name text) ∨
    (∀ name text, ¬Stores x w d action s name text) ∧ vars' = vars

theorem perform_stores {verdict : Verdict}
    (e : (perform x action vars).run w d s = (.done (verdict, vars'), t)) :
    Left x w d action s verdict vars vars' := by
  induction action generalizing s with
  | store source name =>
    rw [perform, run_bind] at e
    obtain ⟨result, u, hread, e⟩ := Ended.andThen_eq_done e
    cases result with
    | ok v =>
      cases e
      exact .inl ⟨name, v.textOr, .store ⟨v, _, hread, rfl, answered_of_attempts hread⟩, rfl, rfl⟩
    | error error =>
      cases e
      exact .inr ⟨fun _ _ => Stores.not_of_error hread, rfl⟩
  | conditional target condition consequence ih =>
    rw [perform, run_bind] at e
    obtain ⟨holds, u, hprobe, e⟩ := Ended.andThen_eq_done e
    cases holds with
    | true =>
      rcases ih e with ⟨name, text, h, hdone, hset⟩ | ⟨hnone, hsame⟩
      · exact .inl ⟨name, text, .conditional hprobe h, hdone, hset⟩
      · exact .inr ⟨fun name text h => hnone name text (h.of_holds hprobe), hsame⟩
    | false =>
      cases e
      exact .inr ⟨fun _ _ => Stores.not_of_not_holds hprobe, rfl⟩
  | waitDuration seconds =>
    refine .inr ⟨fun _ _ => Stores.not_of_none rfl, ?_⟩
    rw [perform] at e
    split at e
    · rw [run] at e
      split at e
      · cases e
        rfl
      · cases e
    · cases e
      rfl
  | unknown text =>
    cases e
    exact .inr ⟨fun _ _ => Stores.not_of_none rfl, rfl⟩
  | _ => exact .inr ⟨fun _ _ => Stores.not_of_none rfl, vars_of_bind_done e⟩

/-- An action keeps the text of every name but the one under which it may store. -/
theorem get?_of_perform {p : Verdict × Variables}
    (e : (perform x action vars).run w d s = (.done p, t))
    (hname : action.storesUnder? ≠ some name) : p.2.get? name = vars.get? name := by
  rcases perform_stores e with ⟨other, text, h, -, hset⟩ | ⟨-, hsame⟩
  · rw [hset]
    refine Variables.get?_set_of_ne vars text ?_
    rintro rfl
    exact hname h.storesUnder
  · rw [hsame]

end stores

theorem reads_of_store {source : Target} {name : String} {verdict : Verdict}
    (e : (perform x (.store source name) vars).run w d s = (.done (verdict, vars'), t))
    (hverdict : ∀ error, verdict ≠ .failed error) :
    ∃ text, Reads x w d source s text ∧ vars' = vars.set name text := by
  rw [perform, run_bind] at e
  obtain ⟨result, u, hread, e⟩ := Ended.andThen_eq_done e
  cases result with
  | ok v =>
    cases e
    exact ⟨v.textOr, ⟨v, _, hread, rfl, answered_of_attempts hread⟩, rfl⟩
  | error error =>
    cases e
    exact absurd rfl (hverdict error)

end Step

/-! ## Steps in turn -/

namespace CaseRun

variable {r : CaseRunner} {w : World σ} {c : TestCase} {s : Session σ}

section oneStep

variable {deadline : Option Nat} {caseId raw : String} {index : Nat} {vars vars' : Variables}
  {t : Session σ} {result : StepResult}

theorem get?_of_oneStep
    (e : oneStep r w deadline caseId raw index vars s = (.done (result, vars'), t)) {name : String}
    (hname : (Sentence.classify r.rules (vars.substitute raw)).storesUnder? ≠ some name) :
    vars'.get? name = vars.get? name := by
  obtain ⟨verdict, t₁, screenshot, t₂, hperform, -⟩ := oneStep_eq_done e
  exact Step.get?_of_perform hperform hname

theorem reads_of_oneStep
    (e : oneStep r w deadline caseId raw index vars s = (.done (result, vars'), t))
    (hfail : result.isFail = false) {source : Target} {name : String}
    (haction : Sentence.classify r.rules (vars.substitute raw) = .store source name) :
    ∃ text, Step.Reads (r.context caseId) w deadline source
        (beginStep r w caseId index (Sentence.normalize (vars.substitute raw)) s) text ∧
      vars' = vars.set name text := by
  obtain ⟨verdict, t₁, screenshot, t₂, hperform, -, rfl, -⟩ := oneStep_eq_done e
  rw [haction] at hperform
  refine Step.reads_of_store hperform ?_
  rintro error rfl
  cases hfail

end oneStep

/-- The variables and the session after all steps of a list, if they pass. -/
def reached (r : CaseRunner) (w : World σ) (deadline : Option Nat) (caseId : String) :
    List String → Nat → Variables → Session σ → Option (Variables × Session σ)
  | [], _, vars, s => some (vars, s)
  | raw :: rest, index, vars, s =>
    match oneStep r w deadline caseId raw index vars s with
    | (.halted _, _) => none
    | (.done (result, vars), t) =>
      if result.isFail then none else reached r w deadline caseId rest (index + 1) vars t

theorem reached_append (deadline : Option Nat) (caseId : String) (raws raws' : List String)
    (index : Nat) (vars : Variables) (s : Session σ) :
    reached r w deadline caseId (raws ++ raws') index vars s =
      (reached r w deadline caseId raws index vars s).bind fun p =>
        reached r w deadline caseId raws' (index + raws.length) p.1 p.2 := by
  induction raws generalizing index vars s with
  | nil => rfl
  | cons raw rest ih =>
    simp only [List.cons_append, reached]
    rcases oneStep r w deadline caseId raw index vars s with ⟨⟨result, vars'⟩ | h, t⟩
    · simp only
      split
      · rfl
      · rw [ih, List.length_cons, Nat.add_right_comm, Nat.add_assoc]
    · rfl

theorem oneStep_of_steps {deadline : Option Nat} {caseId : String} {raws : List String} {index : Nat}
    {vars : Variables} {s : Session σ} {k : Nat} {result : StepResult}
    (h : (runSteps r w deadline caseId raws index vars s).steps[k]? = some result) :
    ∃ raw vars₁ u vars₂ t, raws[k]? = some raw ∧
      reached r w deadline caseId (raws.take k) index vars s = some (vars₁, u) ∧
      oneStep r w deadline caseId raw (index + k) vars₁ u = (.done (result, vars₂), t) := by
  induction raws generalizing index vars s k with
  | nil => cases h
  | cons raw rest ih =>
    rw [runSteps_cons] at h
    rcases hstep : oneStep r w deadline caseId raw index vars s with ⟨⟨first, vars'⟩ | halt, t⟩
    · simp only [hstep] at h
      cases k with
      | zero =>
        obtain rfl : first = result := by
          split at h
          · exact Option.some.inj h
          · exact Option.some.inj h
        exact ⟨raw, vars, s, vars', t, rfl, rfl, hstep⟩
      | succ k =>
        split at h
        · cases h
        · rename_i hpass
          obtain ⟨raw', vars₁, u, vars₂, t', hraw, hreached, hlast⟩ := ih h
          refine ⟨raw', vars₁, u, vars₂, t', hraw, ?_, ?_⟩
          · rw [List.take_succ_cons, reached, hstep]
            simp only [hpass]
            exact hreached
          · rwa [Nat.add_right_comm, Nat.add_assoc] at hlast
    · rw [hstep] at h
      cases h

/-! ## Places in a case -/

/-- The variables and the session before the step at a place in a case, if all steps before it
pass. -/
def before (r : CaseRunner) (w : World σ) (c : TestCase) (s : Session σ) (k : Nat) :
    Option (Variables × Session σ) :=
  reached r w (some (deadline r s)) c.id (c.steps.take k) 0 .empty
    (s.capture r.evidence.captureNetwork)

theorem before_succ {k : Nat} {raw : String} (hraw : c.steps[k]? = some raw) :
    before r w c s (k + 1) = (before r w c s k).bind fun p =>
      reached r w (some (deadline r s)) c.id [raw] k p.1 p.2 := by
  have hk : k < c.steps.length := (List.getElem?_eq_some_iff.mp hraw).1
  rw [before, List.take_add_one, hraw, Option.toList_some, reached_append, List.length_take,
    Nat.min_eq_left (Nat.le_of_lt hk), Nat.zero_add]
  rfl

theorem before_succ_of_none {k : Nat} (hraw : c.steps[k]? = none) :
    before r w c s (k + 1) = before r w c s k := by
  rw [before, List.take_add_one, hraw, Option.toList_none, List.append_nil]
  rfl

theorem before_succ_of_oneStep {k : Nat} {raw : String} (hraw : c.steps[k]? = some raw)
    {vars vars' : Variables} {u t : Session σ} (hbefore : before r w c s k = some (vars, u))
    {result : StepResult}
    (e : oneStep r w (some (deadline r s)) c.id raw k vars u = (.done (result, vars'), t))
    (hfail : result.isFail = false) : before r w c s (k + 1) = some (vars', t) := by
  rw [before_succ hraw, hbefore, Option.bind_some, reached, e]
  simp only [hfail, reached]
  rfl

theorem oneStep_of_before_succ {k : Nat} {raw : String} (hraw : c.steps[k]? = some raw)
    {vars' : Variables} {t : Session σ} (h : before r w c s (k + 1) = some (vars', t)) :
    ∃ vars u result, before r w c s k = some (vars, u) ∧
      oneStep r w (some (deadline r s)) c.id raw k vars u = (.done (result, vars'), t) ∧
      result.isFail = false := by
  rw [before_succ hraw] at h
  obtain ⟨⟨vars, u⟩, hbefore, h⟩ := Option.bind_eq_some_iff.mp h
  refine ⟨vars, u, ?_⟩
  rw [reached] at h
  rcases hstep : oneStep r w (some (deadline r s)) c.id raw k vars u with ⟨⟨result, vars''⟩ | halt, t'⟩
  · simp only [hstep, reached] at h
    split at h
    · cases h
    · rename_i hfail
      cases h
      exact ⟨result, hbefore, rfl, by simpa using hfail⟩
  · simp only [hstep] at h
    cases h

theorem before_of_le {i j : Nat} (hij : i ≤ j) {p : Variables × Session σ}
    (h : before r w c s j = some p) : ∃ q, before r w c s i = some q := by
  have htake : c.steps.take j = c.steps.take i ++ (c.steps.take j).drop i := by
    have hfirst : c.steps.take i = (c.steps.take j).take i := by
      rw [List.take_take, Nat.min_eq_left hij]
    rw [hfirst, List.take_append_drop]
  rw [before, htake, reached_append] at h
  obtain ⟨q, hq, -⟩ := Option.bind_eq_some_iff.mp h
  exact ⟨q, hq⟩

theorem get?_before {i j : Nat} (hij : i ≤ j) {name : String}
    (hkeep : ∀ k raw vars u, i ≤ k → k < j → c.steps[k]? = some raw →
      before r w c s k = some (vars, u) →
      (Sentence.classify r.rules (vars.substitute raw)).storesUnder? ≠ some name)
    {vars vars' : Variables} {u u' : Session σ} (hi : before r w c s i = some (vars, u))
    (hj : before r w c s j = some (vars', u')) : vars'.get? name = vars.get? name := by
  obtain ⟨n, rfl⟩ := Nat.exists_eq_add_of_le hij
  induction n generalizing vars' u' with
  | zero =>
    rw [Nat.add_zero, hi] at hj
    cases hj
    rfl
  | succ n ih =>
    have hle : i ≤ i + n := Nat.le_add_right i n
    have hlt : i + n < i + (n + 1) := Nat.lt_succ_self (i + n)
    have hfirst : ∀ {v t}, before r w c s (i + n) = some (v, t) → v.get? name = vars.get? name :=
      ih hle fun k raw v t hik hkj => hkeep k raw v t hik (Nat.lt_trans hkj hlt)
    rw [← Nat.add_assoc] at hj
    cases hraw : c.steps[i + n]? with
    | none =>
      rw [before_succ_of_none hraw] at hj
      exact hfirst hj
    | some raw =>
      obtain ⟨v, t, result, hbefore, hstep, -⟩ := oneStep_of_before_succ hraw hj
      rw [get?_of_oneStep hstep (hkeep (i + n) raw v t hle hlt hraw hbefore)]
      exact hfirst hbefore

theorem oneStep_of_recorded {t : Session σ} {x : CaseResult} (h : run r w c s = (.done x, t)) {k : Nat}
    {result : StepResult} (hk : x.steps[k]? = some result) :
    ∃ raw vars u vars' u', c.steps[k]? = some raw ∧ before r w c s k = some (vars, u) ∧
      oneStep r w (some (deadline r s)) c.id raw k vars u = (.done (result, vars'), u') := by
  rw [run_steps h, carried] at hk
  split at hk
  · obtain ⟨raw, vars, u, vars', u', hraw, hbefore, e⟩ := oneStep_of_steps hk
    rw [Nat.zero_add] at e
    exact ⟨raw, vars, u, vars', u', hraw, hbefore, e⟩
  · cases hk

/-- At a place in a case the reading of a source comes to a text. -/
def ReadsAt (r : CaseRunner) (w : World σ) (c : TestCase) (s : Session σ) (k : Nat) (source : Target)
    (text : String) : Prop :=
  ∃ raw vars u, c.steps[k]? = some raw ∧ before r w c s k = some (vars, u) ∧
    Step.Reads (r.context c.id) w (some (deadline r s)) source
      (beginStep r w c.id k (Sentence.normalize (vars.substitute raw)) u) text

end CaseRun

end PlainSteps
