import PlainSteps.Proofs.Requests

/-!
# Explicit targets

A locator of the author's is used as it stands, so an action whose targets are all explicit, those
of the conditions around it included, never asks the resolver.

* `Step.perform_resolving` : such an action is the same routine under every resolver. The resolver
  is reached in four ways, by a cascade, a check, a wait and a probe, and each of them begins with
  `Step.locators`, where the two resolvers agree (`Step.locators_resolving`).
* `CaseRun.explicit_unresolved` : its step has the same result, variables and session under any two
  resolvers, and each locator in its requests is one of the author's.
-/

namespace PlainSteps

variable {σ : Type}

/-- The same context with another way to find locators. -/
def Step.Context.resolving (x : Step.Context) (resolve : Resolver) : Step.Context :=
  { x with resolve }

/-- All targets of an action, those of the conditions around it included, are the author's. -/
def Action.Explicit (action : Action) : Prop :=
  ∀ target ∈ action.targets, target.isExplicit = true

namespace Action.Explicit

variable {target : Target} {action : Action}

theorem head {targets : List Target} (h : action.Explicit) (ht : action.targets = target :: targets) :
    target.isExplicit = true :=
  h target (ht ▸ List.mem_cons_self)

theorem consequence {condition : Condition} (h : (conditional target condition action).Explicit) :
    action.Explicit :=
  fun t ht => h t (List.mem_cons_of_mem target ht)

end Action.Explicit

namespace Step

section target

variable (x : Context) (resolve : Resolver) (kind : ActionKind) {target : Target}

theorem locators_resolving (h : target.isExplicit = true) :
    locators (x.resolving resolve) kind target = locators x kind target := by
  cases target with
  | explicit locator => rfl
  | implied hint => cases h

theorem explicit_of_mem_locators (h : target.isExplicit = true) {l : String}
    (hl : l ∈ (locators x kind target).1) : target = .explicit l := by
  cases target with
  | explicit locator => rw [List.mem_singleton.mp hl]
  | implied hint => cases h

theorem onTarget_resolving (h : target.isExplicit = true) (ask : String → Nat → Call) :
    onTarget (x.resolving resolve) kind target ask = onTarget x kind target ask := by
  simp only [onTarget, locators_resolving x resolve kind h]

theorem element_resolving (h : target.isExplicit = true) (ask : String → Nat → Call) :
    element (x.resolving resolve) kind target ask = element x kind target ask := by
  simp only [element, onTarget_resolving x resolve kind h]

theorem firstLocator?_resolving (h : target.isExplicit = true) :
    firstLocator? (x.resolving resolve) kind target = firstLocator? x kind target := by
  simp only [firstLocator?, locators_resolving x resolve kind h]

theorem present_resolving (h : target.isExplicit = true) (state : ElementState)
    (operation : String) (explain : BrowserError → StepError) :
    present (x.resolving resolve) kind target state operation explain =
      present x kind target state operation explain := by
  simp only [present, firstLocator?_resolving x resolve kind h]
  rfl

theorem probe_resolving (h : target.isExplicit = true) (state : ElementState) :
    probe (x.resolving resolve) target state = probe x target state := by
  simp only [probe, firstLocator?_resolving x resolve .conditional h]
  rfl

end target

/-- An action on targets of the author's is the same routine under every resolver. -/
theorem perform_resolving (x : Context) (resolve : Resolver) {action : Action}
    (h : action.Explicit) (vars : Variables) :
    perform (x.resolving resolve) action vars = perform x action vars := by
  induction action with
  | click target => simp only [perform, element_resolving x resolve .click (h.head rfl)]
  | fill value target => simp only [perform, element_resolving x resolve .fill (h.head rfl)]
  | store source name => simp only [perform, onTarget_resolving x resolve .store (h.head rfl)]
  | verify target => simp only [perform, present_resolving x resolve .verify (h.head rfl)]
  | waitFor target state => simp only [perform, present_resolving x resolve .waitFor (h.head rfl)]
  | conditional target condition consequence ih =>
    simp only [perform, probe_resolving x resolve (h.head rfl), ih h.consequence]
  | navigate url => rfl
  | waitForLoad => rfl
  | waitDuration seconds => rfl
  | unknown text => rfl

end Step

namespace CaseRun

theorem runStep_resolving (x : Step.Context) (resolve : Resolver) (w : World σ)
    (deadline : Option Nat) (index : Nat) (description : String) {action : Action}
    (h : action.Explicit) (vars : Variables) (s : Session σ) :
    runStep (x.resolving resolve) w deadline index description action vars s =
      runStep x w deadline index description action vars s := by
  simp only [runStep, Step.perform_resolving x resolve h]
  rfl

end CaseRun

/-- A step on targets of the author's does not depend on the resolver: its result, the variables
after it and its requests are the same under any two, and each locator in a request is a target of
the action. -/
theorem CaseRun.explicit_unresolved (x : Step.Context) (w : World σ) (deadline : Option Nat)
    (index : Nat) (description : String) (action : Action) (vars : Variables) (s : Session σ)
    (h : ∀ target ∈ action.targets, target.isExplicit = true) :
    (∀ resolve resolve', runStep (x.resolving resolve) w deadline index description action vars s =
      runStep (x.resolving resolve') w deadline index description action vars s) ∧
    ∃ made, (runStep x w deadline index description action vars s).2.events = s.events ++ made ∧
      ∀ e ∈ made, ∃ time c, e = .call time c ∧
        ∀ l ∈ c.locator?, Target.explicit l ∈ action.targets := by
  constructor
  · intro resolve resolve'
    rw [runStep_resolving x resolve w deadline index description h,
      runStep_resolving x resolve' w deadline index description h]
  · rw [runStep_session]
    refine Routine.run_events (Routine.asks_bind ?_ fun _ => Step.asks_close x index ?_) w deadline s
    · refine (Step.asks_perform x action vars).mono fun c hc l hl => ?_
      obtain ⟨target, htarget, kind, hmem⟩ := hc.2 l hl
      rwa [← Step.explicit_of_mem_locators x kind (h target htarget) hmem]
    · exact fun l hl => nomatch hl

/-- A button that is behind a banner, both given by locators of the author's. -/
theorem CaseRun.explicit_unresolved_banner :
    let action : Action :=
      .conditional (.explicit "css=#banner") .visible (.click (.explicit "text=OK"))
    let x : Step.Context := ⟨StopWords.usual.resolver, {}, "https://x.test/", none⟩
    let w := Browser.Script.world ⟨[], [], [], []⟩ false ⟨0, 0⟩
    (∀ target ∈ action.targets, target.isExplicit = true) ∧
    (∀ resolve resolve',
      runStep (x.resolving resolve) w none 0 "" action .empty { page := [] } =
        runStep (x.resolving resolve') w none 0 "" action .empty { page := [] }) ∧
    (runStep x w none 0 "" action .empty { page := [] }).2.events =
      [.call 0 (.waitFor "css=#banner" .visible 2000), .call 0 (.click "text=OK" 10000)] := by
  intro action x w
  have h : ∀ target ∈ action.targets, target.isExplicit = true := by decide
  exact ⟨h, (explicit_unresolved x w none 0 "" action .empty { page := [] } h).1,
    by decide +kernel⟩

end PlainSteps
