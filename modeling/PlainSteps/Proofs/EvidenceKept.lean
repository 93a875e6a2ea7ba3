import PlainSteps.Proofs.SavedFiles

/-!
# Which screenshots are kept

`Run.evidence_apart`: two screenshots of a run share a path if and only if they are of steps with one
number and of identifiers with one component; and in a run whose cases have different components every
file that is saved is still there at the end, and every recorded screenshot describes the file at its
path.

The paths of all files that a run saves are, in order, some of those of the steps of its cases
(`Run.execute_saved`, put together from `CaseRun.oneStep_saved` like the run itself), and these are
different when the components are (`CaseRunner.nodup_shotPaths`).
-/

namespace PlainSteps

variable {σ : Type}

/-! ## Cases -/

/-- The screenshots recorded with the steps of a case. -/
def CaseResult.screenshots (x : CaseResult) : List Screenshot :=
  x.steps.flatMap fun y => y.screenshot.toList

/-- The paths at which the steps of a case may save a screenshot. -/
def CaseRunner.shotPaths (r : CaseRunner) (c : TestCase) : List String :=
  (List.range c.steps.length).map (CaseRun.shotPath r c.id)

namespace CaseRun

/-- The files that the steps of a case save, from one of them on. -/
def saved (r : CaseRunner) (w : World σ) (d : Option Nat) (caseId : String) :
    List String → Nat → Variables → Session σ → List SavedFile
  | [], _, _, _ => []
  | raw :: rest, index, vars, s =>
    stepSaved r w d caseId raw index vars s ++
      Ended.traceThen (oneStep r w d caseId raw index vars s) fun p t =>
        if p.1.isFail then [] else saved r w d caseId rest (index + 1) p.2 t

/-- The files that a case saves. -/
def caseSaved (r : CaseRunner) (w : World σ) (c : TestCase) (s : Session σ) : List SavedFile :=
  if s.now < deadline r s || w.lenient (deadline r s) then
    saved r w (some (deadline r s)) c.id c.steps 0 .empty (s.capture r.evidence.captureNetwork)
  else []

theorem runSteps_saved (r : CaseRunner) (w : World σ) (d : Option Nat) (caseId : String)
    (raws : List String) (index : Nat) (vars : Variables) (s : Session σ) :
    Saved ((List.range' index raws.length).map (shotPath r caseId))
      (saved r w d caseId raws index vars s)
      ((runSteps r w d caseId raws index vars s).steps.flatMap fun y => y.screenshot.toList) s
      (runSteps r w d caseId raws index vars s).session := by
  induction raws generalizing index vars s with
  | nil => exact .nil rfl
  | cons raw rest ih =>
    have hstep := oneStep_saved r w d caseId raw index vars s
    rw [runSteps_cons, saved, List.length_cons, List.range'_succ, List.map_cons,
      ← List.singleton_append]
    rcases e : oneStep r w d caseId raw index vars s with ⟨⟨result, vars'⟩ | halt, t⟩
    · rw [e] at hstep
      simp only [Ended.traceThen_done]
      split
      · exact hstep.append (.nil rfl)
      · exact hstep.append (ih (index + 1) vars' t)
    · rw [e] at hstep
      exact hstep.append (.nil rfl)

theorem carried_saved (r : CaseRunner) (w : World σ) (c : TestCase) (s : Session σ) :
    Saved (r.shotPaths c) (caseSaved r w c s)
      ((carried r w c s).steps.flatMap fun y => y.screenshot.toList) s (carried r w c s).session := by
  unfold carried caseSaved
  split
  · have hsteps := runSteps_saved r w (some (deadline r s)) c.id c.steps 0 .empty
      (s.capture r.evidence.captureNetwork)
    rw [← List.range_eq_range'] at hsteps
    exact hsteps.congr rfl rfl
  · exact .nil rfl

theorem run_saved (r : CaseRunner) (w : World σ) (c : TestCase) (s : Session σ) :
    Saved (r.shotPaths c) (caseSaved r w c s) ((run r w c s).1.shots CaseResult.screenshots) s
      (run r w c s).2 := by
  have hcarried := carried_saved r w c s
  rw [run_eq]
  split
  · exact hcarried.congr rfl rfl
  · exact hcarried.congr rfl rfl
  · exact hcarried.mono (List.Sublist.refl _) (List.nil_subset _)

end CaseRun

/-! ## Runs -/

namespace Run

open Routine

/-- The files that cases save, one case after the other. -/
def savedInTurn (x : CaseRunner) (w : World σ) : List TestCase → Session σ → List SavedFile
  | [], _ => []
  | c :: cs, s =>
    CaseRun.caseSaved x w c s ++
      Ended.traceThen (CaseRun.run x w c s) fun _ t => savedInTurn x w cs t

/-- The files that are saved between launch and close. -/
def insideSaved (r : Run) (w : World σ) (cases : List TestCase) (s : Session σ) : List SavedFile :=
  Ended.traceThen (r.setUp.run w none s) fun
    | .error _ => fun _ => []
    | .ok () => savedInTurn r.runner w cases

/-- The files that a run saves. -/
def saved (r : Run) (w : World σ) (cases : List TestCase) (s : Session σ) : List SavedFile :=
  Ended.traceThen ((request (.launch r.launch)).run w none s) fun
    | .error _ => fun _ => []
    | .ok _ => insideSaved r w cases

theorem runCases_saved (x : CaseRunner) (w : World σ) (cases : List TestCase) (s : Session σ) :
    Saved (cases.flatMap x.shotPaths) (savedInTurn x w cases s)
      ((runCases x w cases s).1.flatMap CaseResult.screenshots) s (runCases x w cases s).2.2 := by
  induction cases generalizing s with
  | nil => exact .nil rfl
  | cons c cs ih =>
    have hcase := CaseRun.run_saved x w c s
    rw [runCases_cons, savedInTurn, List.flatMap_cons]
    rcases e : CaseRun.run x w c s with ⟨result | halt, t⟩
    · rw [e] at hcase
      exact hcase.append (ih t)
    · rw [e] at hcase
      exact hcase.append (.nil rfl)

variable {r : Run} {w : World σ} {cases : List TestCase} {s : Session σ}

theorem inside_saved (r : Run) (w : World σ) (cases : List TestCase) (s : Session σ) :
    Saved (cases.flatMap r.runner.shotPaths) (insideSaved r w cases s)
      ((inside r w cases s).1.shots fun p => p.1.flatMap CaseResult.screenshots) s
      (inside r w cases s).2 := by
  have hsetUp := Saved.of_saveless r.saveless_setUp w none s
  unfold inside insideSaved
  rcases e : r.setUp.run w none s with ⟨(error | ⟨⟩) | halt, t⟩
  · rw [e] at hsetUp
    exact hsetUp.mono (List.nil_sublist _) (List.Subset.refl _)
  · rw [e] at hsetUp
    have hcases := runCases_saved r.runner w cases t
    have hrunner : CaseRunner.ofSettings r.settings r.resolve r.runId r.targetUrl = r.runner := rfl
    refine hsetUp.append ?_
    simp only [hrunner]
    rcases e : runCases r.runner w cases t with ⟨results, _ | halt, u⟩
    · rw [e] at hcases
      exact hcases
    · rw [e] at hcases
      cases halt with
      | breakdown b => exact hcases
      | _ => exact hcases.mono (List.Sublist.refl _) (List.nil_subset _)
  · rw [e] at hsetUp
    cases halt with
    | _ => exact hsetUp.mono (List.nil_sublist _) (List.Subset.refl _)

theorem launched_saved (r : Run) (w : World σ) (cases : List TestCase) (s t : Session σ) :
    Saved (cases.flatMap r.runner.shotPaths) (insideSaved r w cases t)
      ((launched r w cases s t).1.shots fun x => x.cases.flatMap CaseResult.screenshots) t
      (launched r w cases s t).2 := by
  have hinside := inside_saved r w cases t
  unfold launched
  rcases e : inside r w cases t with ⟨p | halt, u⟩
  · rw [e] at hinside
    have hboth := hinside.append (.of_saveless (saveless_request .close) w none u)
    rw [List.append_nil, List.append_nil, List.append_nil] at hboth
    rw [Ended.andThen_done]
    rcases e : (request .close).run w none u with ⟨reply | halt, v⟩
    · rw [e] at hboth
      exact hboth
    · rw [e] at hboth
      exact hboth.mono (List.Sublist.refl _) (List.nil_subset _)
  · rw [e] at hinside
    exact hinside

/-- A run saves files at some of the paths of its cases, in order. -/
theorem execute_saved (r : Run) (w : World σ) (cases : List TestCase) (s : Session σ) :
    Saved (cases.flatMap r.runner.shotPaths) (saved r w cases s)
      ((execute r w cases s).1.shots fun x => x.cases.flatMap CaseResult.screenshots) s
      (execute r w cases s).2 := by
  rw [execute_eq, saved]
  refine (Saved.of_saveless (saveless_request _) w none s).andThen fun reply t _ => ?_
  cases reply with
  | error e => exact .nil rfl
  | ok v => exact launched_saved r w cases s t

end Run

theorem CaseRunner.nodup_shotPaths (r : CaseRunner) {cases : List TestCase}
    (h : cases.Pairwise fun c d => c.id ≠ d.id ∧ ¬Evidence.Clash c.id d.id) :
    (cases.flatMap r.shotPaths).Nodup := by
  refine List.nodup_flatMap.mpr ⟨fun c _ => List.nodup_range.map fun i j hij => ?_, h.imp ?_⟩
  · exact (Evidence.file_eq_iff _ _).mp hij |>.1
  · rintro c d ⟨hne, hclash⟩ path hc hd
    obtain ⟨i, -, rfl⟩ := List.mem_map.mp hc
    obtain ⟨j, -, heq⟩ := List.mem_map.mp hd
    rcases ((Evidence.file_eq_iff _ _).mp heq.symm).2 with hid | hid
    · exact hne hid
    · exact hclash hid

namespace Run

/-- Two screenshots of a run share a path if and only if they are of steps with one number and of
identifiers that are the same or clash. What a run saves is there at the end as it was saved last at its
path; and where no two cases have the same identifier or clash, no file is saved over another, all of them
are there at the end, and each recorded screenshot describes the file at its path. -/
theorem evidence_apart (r : Run) (w : World σ) (cases : List TestCase) (s : Session σ) :
    (∀ (root runId a b : String) (i j : Nat),
      Evidence.file (Evidence.folder root runId a) i = Evidence.file (Evidence.folder root runId b) j ↔
        i = j ∧ (a = b ∨ Evidence.Clash a b)) ∧
    (∀ path, (execute r w cases s).2.files.lookup path =
      ((saved r w cases s).reverse.lookup path).or (s.files.lookup path)) ∧
    (cases.Pairwise (fun c d => c.id ≠ d.id ∧ ¬Evidence.Clash c.id d.id) →
      ((saved r w cases s).map Prod.fst).Nodup ∧
      (∀ f ∈ saved r w cases s, (execute r w cases s).2.files.lookup f.1 = some f.2) ∧
      ∀ report t, execute r w cases s = (.done report, t) → ∀ c ∈ report.cases,
        ∀ x ∈ c.screenshots, ∃ image, t.files.lookup x.path = some image ∧
          x.Describes (x.path, image)) := by
  have hsaved := execute_saved r w cases s
  refine ⟨fun root runId a b i j => Evidence.file_eq_iff root runId, fun path => ?_, fun hcases => ?_⟩
  · rw [hsaved.written, lookup_written]
  · obtain ⟨hnodup, hkept, hshots⟩ := hsaved.kept (r.runner.nodup_shotPaths hcases)
    refine ⟨hnodup, hkept, fun report t hreport c hc x hx => ?_⟩
    rw [hreport] at hshots
    exact hshots x (List.mem_flatMap.mpr ⟨c, hc, hx⟩)

/-- A browser that always does what it is asked to. -/
def placid : Browser.Script where
  rules := []
  texts := []
  echoes := []
  screenshot := [137, 80, 78, 71]

/-- A run over three identifiers that differ only in what is rewritten. An identifier that is written like
one that is rewritten clashes with it. -/
theorem evidence_apart_rewritten :
    let r : Run :=
      { runId := "run", settings := { evidence := { captureScreenshots := true, outputDir := "out" } }
        targetUrl := "https://x.test/"
        launch := ⟨.chromium, true, {}⟩, resolve := StopWords.usual.resolver }
    let w := { placid.world false ⟨0, 0⟩ with stores := fun _ _ _ => true }
    let cases : List TestCase :=
      ["a/b", "a b", "a_b"].map fun id => { id, steps := ["Click \"Buy\"", "Verify \"Sum\""] }
    let s : Session (List Nat) := { page := [] }
    Evidence.Clash "a/b" "a_b-c14cddc0" ∧
      (saved r w cases s).map Prod.fst =
        ["out/run/a_b-c14cddc0/step-1.png", "out/run/a_b-c14cddc0/step-2.png",
          "out/run/a_b-c8687a08/step-1.png", "out/run/a_b-c8687a08/step-2.png",
          "out/run/a_b/step-1.png", "out/run/a_b/step-2.png"] ∧
      cases.Pairwise (fun c d => c.id ≠ d.id ∧ ¬Evidence.Clash c.id d.id) ∧
      ((saved r w cases s).map Prod.fst).Nodup ∧
      (∀ f ∈ saved r w cases s, (execute r w cases s).2.files.lookup f.1 = some f.2) ∧
      ∀ report t, execute r w cases s = (.done report, t) → ∀ c ∈ report.cases,
        ∀ x ∈ c.screenshots, ∃ image, t.files.lookup x.path = some image ∧
          x.Describes (x.path, image) := by
  intro r w cases s
  have hcases : cases.Pairwise fun c d => c.id ≠ d.id ∧ ¬Evidence.Clash c.id d.id := by
    decide +kernel
  exact ⟨by decide +kernel, by decide +kernel, hcases, (evidence_apart r w cases s).2.2 hcases⟩

end Run

end PlainSteps
