import PlainSteps.Step

/-!
# What a step takes from its context

* `Step.perform_congr` : an action depends on the resolver, the timeouts of locators, waits and
  navigation, and the address that relative ones refer to, and on nothing else.
* `Step.close_congr` : what follows an action depends on the folder of screenshots and on the rest.
-/

namespace PlainSteps.Step

/-- Two contexts agree on all that an action takes from them. -/
structure Context.Alike (x y : Context) : Prop where
  resolve : x.resolve = y.resolve
  candidateTimeout : x.execution.candidateTimeout = y.execution.candidateTimeout
  waitTimeout : x.execution.waitTimeout = y.execution.waitTimeout
  navigationTimeout : x.execution.navigationTimeout = y.execution.navigationTimeout
  baseUrl : x.baseUrl = y.baseUrl

section

variable {x y : Context}

theorem locators_congr (h : x.Alike y) : locators x = locators y := by
  funext kind target
  cases target with
  | explicit locator => simp only [locators_explicit, h.waitTimeout]
  | implied hint => simp only [locators_implied, h.resolve, h.candidateTimeout]

theorem onTarget_congr (h : x.Alike y) : onTarget x = onTarget y := by
  funext kind target ask
  simp only [onTarget, locators_congr h]

theorem element_congr (h : x.Alike y) : element x = element y := by
  funext kind target ask
  simp only [element, onTarget_congr h]

theorem present_congr (h : x.Alike y) : present x = present y := by
  funext kind target state operation explain
  simp only [present, firstLocator?, locators_congr h, h.waitTimeout]

theorem probe_congr (h : x.Alike y) : probe x = probe y := by
  funext target state
  simp only [probe, firstLocator?, locators_congr h, h.candidateTimeout]

theorem perform_congr (h : x.Alike y) (action : Action) (vars : Variables) :
    perform x action vars = perform y action vars := by
  induction action with
  | conditional target condition consequence ih => simp only [perform, probe_congr h, ih]
  | _ => simp only [perform, element_congr h, onTarget_congr h, present_congr h,
      h.navigationTimeout, h.baseUrl]

theorem close_congr (hevidence : x.evidence = y.evidence)
    (hsettle : x.execution.settleDelay = y.execution.settleDelay) (index : Nat) :
    close x index = close y index := by
  simp only [close, hevidence, hsettle]

end

end PlainSteps.Step
