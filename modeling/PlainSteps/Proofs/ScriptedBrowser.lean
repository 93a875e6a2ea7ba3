import PlainSteps.Browser.Scripted
import PlainSteps.Proofs.Execution

/-!
# Browsers that follow rules

* `World.Calm` : no request makes the program break down.
* `Browser.Script.calm_world` : a browser is calm when none of its rules is a breakdown.
-/

namespace PlainSteps

variable {σ : Type}

/-- No request makes the program break down. -/
def World.Calm (w : World σ) : Prop :=
  ∀ page time c b, (w.answer page time c).outcome ≠ .breakdown b

/-- On a calm browser a routine halts only at its deadline, or without one at a request that never
ends. -/
theorem Halt.Explained.of_calm {w : World σ} (hw : w.Calm) {deadline : Option Nat}
    {P : Call → Prop} {h : Halt} (he : h.Explained w deadline P) :
    deadline ≠ none ∧ h = .deadline ∨ deadline = none ∧ h = .stuck := by
  cases h with
  | deadline => exact .inl ⟨he, rfl⟩
  | stuck => exact .inr ⟨he, rfl⟩
  | breakdown b =>
    obtain ⟨page, time, c, -, hb⟩ := he
    exact absurd hb (hw page time c b)

namespace Browser

theorem pick_mem {c : Call} {rules : List Rule} {uses : List Nat} {r : Rule}
    (h : (pick c rules uses).1 = some r) : r ∈ rules := by
  induction rules generalizing uses with
  | nil => cases h
  | cons first rest ih =>
    have hpick : (pick c (first :: rest) uses).1 = some first ∨
        (pick c (first :: rest) uses).1 = (pick c rest (uses.drop 1)).1 := by
      simp only [pick]
      split <;> split <;> simp
    rcases hpick with hp | hp
    · rw [hp] at h
      obtain rfl := Option.some.inj h
      exact List.mem_cons_self
    · exact List.mem_cons_of_mem _ (ih (hp.symm.trans h))

theorem Script.calm_world {p : Script} (h : ∀ r ∈ p.rules, ∀ b, r.behavior ≠ .breakDown b)
    (blocked : Bool) (opening : Timestamp) : (p.world blocked opening).Calm := by
  intro uses time c b hb
  simp only [world, answer] at hb
  rcases hpick : (pick c p.rules uses).1 with _ | r
  · simp [hpick, outcome] at hb
  · have hr := h r (pick_mem hpick)
    rw [hpick] at hb
    simp only [Option.map_some, Option.getD_some] at hb
    cases hbehavior : r.behavior with
    | breakDown b => exact hr b hbehavior
    | _ => simp [hbehavior, outcome] at hb

end Browser

end PlainSteps
