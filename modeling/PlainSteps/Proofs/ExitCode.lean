import Mathlib.Data.List.Forall2
import PlainSteps.Command
import PlainSteps.Proofs.CaseLoading
import PlainSteps.Proofs.CaseVerdict
import PlainSteps.Proofs.RunPhases

/-!
# What the exit code of a run tells

`Command.exit_code_told`: the code is 2 when the settings are refused, a case file is faulty, the case
asked for is not there, or the run reports an error; it is 1 exactly when the run has no error and some
selected case did not pass; and it is 0 exactly when the settings are accepted and either no case has
the tag or every selected case passed. A path at which nothing can be listed counts as one without
cases, so that the code is 0 there too.

The code is decided in four places, one after the other, and the first to decide ends the command
(`Command.Course`). Each is given by what it looks at: the settings by their file and one variable
(`runSettings_error_iff`), the selection by the files listed (`selectedCases_error_iff`,
`selectedCases_nil_iff`), and the report by the results of the cases (`Run.success_iff`).
-/

namespace PlainSteps

variable {σ : Type}

/-! ## Settings -/

namespace Settings

theorem validate_of_load {file : Option String} {s : Settings} (h : load file = .ok s) :
    s.validate = .ok () := by
  cases file with
  | none =>
    cases h
    rfl
  | some text =>
    rw [load, parse] at h
    split at h
    · cases h
    · split at h
      · cases h
      · rename_i hvalid
        cases h
        exact hvalid

theorem validate_withEnvironment {s t : Settings} {env : Environment}
    (h : s.withEnvironment env = .ok t) : t.validate = s.validate := by
  unfold withEnvironment at h
  rcases hget : env.get? "STEPWISE_BROWSER" with _ | name
  · rw [hget] at h
    cases h
    rfl
  · simp only [hget] at h
    rcases hname : BrowserKind.parse name with e | kind
    · rw [hname] at h
      cases h
    · rw [hname] at h
      cases h
      rfl

theorem withEnvironment_error_iff (s : Settings) (env : Environment) :
    (∃ e, s.withEnvironment env = .error e) ↔
      ∃ name e, env.get? "STEPWISE_BROWSER" = some name ∧ BrowserKind.parse name = .error e := by
  unfold withEnvironment
  rcases env.get? "STEPWISE_BROWSER" with _ | name
  · simp [bind, Except.bind]
  · rcases hname : BrowserKind.parse name with e | kind <;> simp [bind, Except.bind, hname]

end Settings

namespace Command

variable {h : Host σ} {path : String} {f : Format} {o : RunOptions}

/-- The settings of a run are refused: their file cannot be read, or its text is refused, or the
environment names an unknown browser. -/
def SettingsRefused (h : Host σ) (path : String) : Prop :=
  (∃ fault, h.read path = .error fault) ∨
  (∃ file e, h.read path = .ok file ∧ Settings.load file = .error e) ∨
  ∃ name e, h.environment.get? "STEPWISE_BROWSER" = some name ∧ BrowserKind.parse name = .error e

theorem loadSettings_error_iff : (∃ m, loadSettings h path = .error m) ↔
    (∃ fault, h.read path = .error fault) ∨
      ∃ file e, h.read path = .ok file ∧ Settings.load file = .error e := by
  unfold loadSettings
  rcases h.read path with fault | file
  · simp
  · rcases hload : Settings.load file with e | s <;> simp [hload]

theorem validate_of_loadSettings {s : Settings} (hs : loadSettings h path = .ok s) :
    s.validate = .ok () := by
  unfold loadSettings at hs
  rcases hread : h.read path with fault | file
  · rw [hread] at hs
    cases hs
  · simp only [hread] at hs
    rcases hload : Settings.load file with e | s'
    · rw [hload] at hs
      cases hs
    · rw [hload] at hs
      cases hs
      exact Settings.validate_of_load hload

theorem runSettings_error_iff :
    (∃ m, runSettings h path o = .error m) ↔ SettingsRefused h path := by
  rw [SettingsRefused, ← or_assoc, ← loadSettings_error_iff]
  unfold runSettings
  rcases hload : loadSettings h path with m | s
  · simp [bind, Except.bind]
  · rw [← Settings.withEnvironment_error_iff s]
    rcases hwith : s.withEnvironment h.environment with e | t
    · simp [bind, Except.bind, hwith]
    · have hvalid : (o.apply t).validate = .ok () :=
        (Settings.validate_withEnvironment hwith).trans (validate_of_loadSettings hload)
      simp [bind, Except.bind, hwith, hvalid]

/-! ## Cases -/

/-- The cases loaded, or those of them with the tag asked for. -/
def TaggedCases (h : Host σ) (o : RunOptions) (cases : List TestCase) : Prop :=
  ∃ all, CaseFile.load h.freshId o.cases (h.look o.cases) = .ok all ∧
    cases = o.tag.elim all (TestCase.tagged · all)

theorem selectedCases_of_error {e : CaseFileError}
    (hload : CaseFile.load h.freshId o.cases (h.look o.cases) = .error e) :
    ∃ m, selectedCases h o = .error m := by
  unfold selectedCases
  rw [hload]
  exact ⟨_, rfl⟩

theorem selectedCases_of_tagged {cases : List TestCase} (hcases : TaggedCases h o cases) :
    selectedCases h o =
      match o.caseId with
      | none => .ok cases
      | some id =>
        match TestCase.find cases id with
        | .ok c => .ok [c]
        | .error e => .error e.message := by
  obtain ⟨all, hload, rfl⟩ := hcases
  unfold selectedCases
  rw [hload]
  rfl

theorem find_error_iff {cases : List TestCase} {id : String} :
    (∃ e, TestCase.find cases id = .error e) ↔ ∀ c ∈ cases, c.id ≠ id := by
  unfold TestCase.find
  split
  · rename_i c hfind
    have hid : c.id = id := by simpa using List.find?_some hfind
    constructor
    · rintro ⟨e, he⟩
      cases he
    · intro hall
      exact absurd hid (hall c (List.mem_of_find?_eq_some hfind))
  · rename_i hfind
    simpa using hfind

theorem tagged_or_error (h : Host σ) (o : RunOptions) :
    (∃ e, CaseFile.load h.freshId o.cases (h.look o.cases) = .error e) ∨
      ∃ cases, TaggedCases h o cases := by
  rcases hload : CaseFile.load h.freshId o.cases (h.look o.cases) with e | all
  · exact .inl ⟨e, rfl⟩
  · exact .inr ⟨_, all, hload, rfl⟩

theorem TaggedCases.unique {cases cases' : List TestCase} (hc : TaggedCases h o cases)
    (hc' : TaggedCases h o cases') : cases = cases' := by
  obtain ⟨all, hload, rfl⟩ := hc
  obtain ⟨all', hload', rfl⟩ := hc'
  cases hload.symm.trans hload'
  rfl

theorem TaggedCases.not_faulty {cases : List TestCase} (hc : TaggedCases h o cases) :
    ¬(h.look o.cases).Faulty o.cases := by
  obtain ⟨all, hload, -⟩ := hc
  rw [← CaseFile.load_error_iff h.freshId, hload]
  rintro ⟨e, he⟩
  cases he

theorem selectedCases_error_iff : (∃ m, selectedCases h o = .error m) ↔
    (h.look o.cases).Faulty o.cases ∨
      ∃ cases id, TaggedCases h o cases ∧ o.caseId = some id ∧ ∀ c ∈ cases, c.id ≠ id := by
  rcases tagged_or_error h o with ⟨e, hload⟩ | ⟨cases, hcases⟩
  · have hfaulty : (h.look o.cases).Faulty o.cases :=
      (CaseFile.load_error_iff h.freshId o.cases _).mp ⟨e, hload⟩
    simp only [selectedCases_of_error hload, hfaulty, true_or]
  · rw [selectedCases_of_tagged hcases]
    constructor
    · rintro ⟨m, hm⟩
      right
      rcases hid : o.caseId with _ | id
      · rw [hid] at hm
        cases hm
      · refine ⟨cases, id, hcases, rfl, find_error_iff.mp ?_⟩
        simp only [hid] at hm
        rcases hfind : TestCase.find cases id with e | c
        · exact ⟨e, rfl⟩
        · rw [hfind] at hm
          cases hm
    · rintro (hfaulty | ⟨cases', id, hcases', hid, hall⟩)
      · exact absurd hfaulty hcases.not_faulty
      · obtain rfl := hcases.unique hcases'
        obtain ⟨e, he⟩ := find_error_iff.mpr hall
        simp only [hid, he]
        exact ⟨_, rfl⟩

theorem selectedCases_nil_iff :
    selectedCases h o = .ok [] ↔ TaggedCases h o [] ∧ o.caseId = none := by
  rcases tagged_or_error h o with ⟨e, hload⟩ | ⟨cases, hcases⟩
  · obtain ⟨m, hm⟩ := selectedCases_of_error hload
    constructor
    · intro hnil
      cases hm.symm.trans hnil
    · rintro ⟨⟨all, hload', -⟩, -⟩
      cases hload.symm.trans hload'
  · rw [selectedCases_of_tagged hcases]
    constructor
    · intro hnil
      rcases hid : o.caseId with _ | id
      · rw [hid] at hnil
        cases hnil
        exact ⟨hcases, rfl⟩
      · simp only [hid] at hnil
        rcases hfind : TestCase.find cases id with e | c
        · rw [hfind] at hnil
          cases hnil
        · rw [hfind] at hnil
          cases hnil
    · rintro ⟨hnil, hid⟩
      obtain rfl := hcases.unique hnil
      rw [hid]

/-! ## Runs -/

/-- The run that a command asks for under settings. -/
def runOf (h : Host σ) (o : RunOptions) (s : Settings) : Run where
  runId := h.runId
  settings := s
  targetUrl := o.url
  launch := s.browser.launchOptions h.environment
  resolve := s.stopWords.resolver

/-- The session in which a run begins. -/
def opening (h : Host σ) (f : Format) : Session σ where
  page := h.page
  progress := if f == .table then some [] else none

/-- A run of the cases selected ends with a report. -/
def Reports (h : Host σ) (path : String) (f : Format) (o : RunOptions) (selected : List TestCase)
    (report : RunReport) : Prop :=
  ∃ s t, runSettings h path o = .ok s ∧ selectedCases h o = .ok selected ∧ selected ≠ [] ∧
    (runOf h o s).execute (h.world s.browser) selected (opening h f) = (.done report, t)

theorem Reports.unique {selected selected' : List TestCase} {report report' : RunReport}
    (hr : Reports h path f o selected report) (hr' : Reports h path f o selected' report') :
    selected = selected' ∧ report = report' := by
  obtain ⟨s, t, hs, hc, -, hrun⟩ := hr
  obtain ⟨s', t', hs', hc', -, hrun'⟩ := hr'
  cases hs.symm.trans hs'
  cases hc.symm.trans hc'
  cases hrun.symm.trans hrun'
  exact ⟨rfl, rfl⟩

theorem Reports.not_refused {selected : List TestCase} {report : RunReport}
    (hr : Reports h path f o selected report) : ¬SettingsRefused h path := by
  obtain ⟨s, t, hs, -⟩ := hr
  rw [← runSettings_error_iff (o := o), hs]
  rintro ⟨m, hm⟩
  cases hm

end Command

namespace Run

variable {r : Run} {w : World σ} {cases : List TestCase} {s t : Session σ} {report : RunReport}

/-- All steps of a case were carried out, and none failed. -/
def Passed (c : TestCase) (x : CaseResult) : Prop :=
  x.caseId = c.id ∧ x.steps.length = c.steps.length ∧ ∀ step ∈ x.steps, step.status ≠ .fail

theorem isPass_iff_passed {x : CaseRunner} {c : TestCase} {result : CaseResult}
    (h : CaseRun.run x w c s = (.done result, t)) : result.isPass = true ↔ Passed c result := by
  obtain ⟨termination, error, h⟩ := CaseRun.concluded_of_run h
  cases h
  rw [CaseResult.isPass, beq_iff_eq, CaseResult.status_ofSteps]
  exact (and_iff_right rfl).symm

theorem inTurn_of_execute (h : r.execute w cases s = (.done report, t))
    (herror : report.error = none) : ∃ u v, InTurn r.runner w cases report.cases u v := by
  rcases execute_done h with ⟨e, -, rfl⟩ | ⟨u, results, error, v, reply, -, hinside, -, rfl⟩
  · cases herror
  · rcases inside_cases hinside with ⟨-, e, rfl, -⟩ | ⟨u', -, hwent⟩
    · cases herror
    · cases hwent with
      | all hturn => exact ⟨u', v, hturn⟩
      | broken hcases hturn hc => cases herror

theorem InTurn.all_isPass_iff {x : CaseRunner} {results : List CaseResult}
    (h : InTurn x w cases results s t) :
    results.all (·.isPass) = true ↔ List.Forall₂ Passed cases results := by
  induction h with
  | nil s => simp
  | cons h _ ih =>
    rw [List.all_cons, Bool.and_eq_true, List.forall₂_cons, ih, isPass_iff_passed h]

theorem success_iff (h : r.execute w cases s = (.done report, t)) :
    report.isSuccess = true ↔ report.error = none ∧ List.Forall₂ Passed cases report.cases := by
  rw [RunReport.isSuccess, Bool.and_eq_true, Option.isNone_iff_eq_none]
  refine and_congr_right fun herror => ?_
  obtain ⟨u, v, hturn⟩ := inTurn_of_execute h herror
  exact hturn.all_isPass_iff

end Run

namespace Command

variable {h : Host σ} {path : String} {f : Format} {o : RunOptions}

/-! ## Exit codes -/

section exitCode

variable {r : RunReport}

theorem exitCode_of_error (he : r.error.isSome = true) : exitCode r = errorCode :=
  if_pos he

theorem exitCode_eq_failed_iff :
    exitCode r = failedCode ↔ r.error = none ∧ ∃ x ∈ r.cases, x.status ≠ .pass := by
  have hall : r.cases.all (·.isPass) = false ↔ ∃ x ∈ r.cases, x.status ≠ .pass := by
    simp [CaseResult.isPass]
  rw [← hall, exitCode, RunReport.isSuccess]
  cases r.error <;> cases r.cases.all (·.isPass) <;> simp [errorCode, passedCode, failedCode]

theorem exitCode_eq_passed_iff : exitCode r = passedCode ↔ r.isSuccess = true := by
  rw [exitCode, RunReport.isSuccess]
  cases r.error <;> cases r.cases.all (·.isPass) <;> simp [errorCode, passedCode, failedCode]

end exitCode

/-- How a command that runs cases comes to its exit code. -/
inductive Course (h : Host σ) (path : String) (f : Format) (o : RunOptions) : Nat → Prop
  | refused (hs : SettingsRefused h path) : Course h path f o errorCode
  | unselected (hs : ¬SettingsRefused h path) {m : String} (hc : selectedCases h o = .error m) :
    Course h path f o errorCode
  | idle (hs : ¬SettingsRefused h path) (hc : selectedCases h o = .ok []) :
    Course h path f o passedCode
  | ran (hs : ¬SettingsRefused h path) {selected : List TestCase} {report : RunReport}
      (hr : Reports h path f o selected report) : Course h path f o (exitCode report)

theorem code_reported {output : Option String} (hwrite : ∀ path ∈ output, h.mayWrite path = .ok ())
    (r : RunReport) (s : Session σ) : (reported h f output r s).code = exitCode r := by
  cases output with
  | none => rfl
  | some path =>
    simp only [reported, hwrite path rfl]

theorem runSelected_eq (s : Settings) (cases : List TestCase) :
    runSelected h f o s cases =
      match (runOf h o s).execute (h.world s.browser) cases (opening h f) with
      | (.halted halt, _) => .halted halt
      | (.done report, t) => .done (reported h f o.output report t) := rfl

theorem course_of_runCases {out : Outcome σ} (hwrite : ∀ path ∈ o.output, h.mayWrite path = .ok ())
    (hdone : runCases h path f o = .done out) : Course h path f o out.code := by
  have hrefused : (∃ m, runSettings h path o = .error m) ↔ SettingsRefused h path :=
    runSettings_error_iff
  unfold runCases at hdone
  rcases hs : runSettings h path o with m | s
  · simp only [hs] at hdone
    cases hdone
    exact .refused (hrefused.mp ⟨m, hs⟩)
  · have haccepted : ¬SettingsRefused h path := by
      rw [← hrefused, hs]
      rintro ⟨m, hm⟩
      cases hm
    rcases hc : selectedCases h o with m | cases
    · simp only [hs, hc] at hdone
      cases hdone
      exact .unselected haccepted hc
    · rcases cases with _ | ⟨c, cs⟩
      · simp only [hs, hc] at hdone
        cases hdone
        exact .idle haccepted hc
      · simp only [hs, hc, runSelected_eq] at hdone
        rcases hrun : (runOf h o s).execute (h.world s.browser) (c :: cs) (opening h f) with
          ⟨report | halt, t⟩
        · rw [hrun] at hdone
          cases hdone
          rw [code_reported hwrite]
          exact .ran haccepted ⟨s, t, hs, hc, List.cons_ne_nil c cs, hrun⟩
        -- A run that halts leaves no outcome.
        · rw [hrun] at hdone
          cases hdone

/-- What the exit code of a command that runs cases tells. -/
structure ExitCode (h : Host σ) (path : String) (f : Format) (o : RunOptions) (code : Nat) : Prop where
  refused : SettingsRefused h path → code = 2
  faulty : (h.look o.cases).Faulty o.cases → code = 2
  /-- The case asked for is not among those with the tag. -/
  missing : ∀ cases id, TaggedCases h o cases → o.caseId = some id → (∀ c ∈ cases, c.id ≠ id) →
    code = 2
  broken : ∀ selected report, Reports h path f o selected report → report.error.isSome = true →
    code = 2
  /-- A run without an error has a result for each case selected. -/
  covered : ∀ selected report, Reports h path f o selected report → report.error = none →
    report.cases.map (·.caseId) = selected.map (·.id)
  failed : code = 1 ↔ ∃ selected report, Reports h path f o selected report ∧ report.error = none ∧
    ∃ x ∈ report.cases, x.status ≠ .pass
  passed : code = 0 ↔ ¬SettingsRefused h path ∧ (TaggedCases h o [] ∧ o.caseId = none ∨
    ∃ selected report, Reports h path f o selected report ∧ report.error = none ∧
      List.Forall₂ Run.Passed selected report.cases)
  /-- Where nothing can be listed the code is not that of an error, unless a case is asked for. -/
  unlisted : (h.look o.cases).Unlisted → ¬SettingsRefused h path →
    code = if o.caseId.isSome then 2 else 0

namespace Course

variable {code : Nat}

theorem of_refused (hcourse : Course h path f o code) (hs : SettingsRefused h path) : code = 2 := by
  cases hcourse with
  | refused => rfl
  | unselected haccepted => rfl
  | idle haccepted => exact absurd hs haccepted
  | ran haccepted => exact absurd hs haccepted

theorem of_unselected (hcourse : Course h path f o code) (hc : ∃ m, selectedCases h o = .error m) :
    code = 2 := by
  obtain ⟨m, hm⟩ := hc
  cases hcourse with
  | refused => rfl
  | unselected => rfl
  | idle _ hnil => cases hm.symm.trans hnil
  | ran _ hr =>
    obtain ⟨s, t, -, hok, -⟩ := hr
    cases hm.symm.trans hok

theorem of_idle (hcourse : Course h path f o code) (hs : ¬SettingsRefused h path)
    (hc : selectedCases h o = .ok []) : code = 0 := by
  cases hcourse with
  | refused hrefused => exact absurd hrefused hs
  | unselected _ hm => cases hm.symm.trans hc
  | idle => rfl
  | ran _ hr =>
    obtain ⟨s, t, -, hok, hne, -⟩ := hr
    cases hc.symm.trans hok
    exact absurd rfl hne

theorem of_reports (hcourse : Course h path f o code) {selected : List TestCase}
    {report : RunReport} (hr : Reports h path f o selected report) : code = exitCode report := by
  cases hcourse with
  | refused hs => exact absurd hs hr.not_refused
  | unselected _ hm =>
    obtain ⟨s, t, -, hok, -⟩ := hr
    cases hm.symm.trans hok
  | idle _ hnil =>
    obtain ⟨s, t, -, hok, hne, -⟩ := hr
    cases hnil.symm.trans hok
    exact absurd rfl hne
  | ran _ hr' => rw [(hr.unique hr').2]

end Course

theorem taggedCases_of_unlisted (hl : (h.look o.cases).Unlisted) : TaggedCases h o [] := by
  refine ⟨[], CaseFile.load_unlisted h.freshId o.cases hl, ?_⟩
  cases o.tag <;> rfl

theorem Course.exitCode {code : Nat} (hcourse : Course h path f o code) : ExitCode h path f o code where
  refused := hcourse.of_refused
  faulty hfaulty := hcourse.of_unselected (selectedCases_error_iff.mpr (.inl hfaulty))
  missing cases id hcases hid hall :=
    hcourse.of_unselected (selectedCases_error_iff.mpr (.inr ⟨cases, id, hcases, hid, hall⟩))
  broken selected report hr herror := by
    rw [hcourse.of_reports hr, exitCode_of_error herror]
    rfl
  covered selected report hr herror := by
    obtain ⟨s, t, -, -, -, hrun⟩ := hr
    obtain ⟨u, v, hturn⟩ := Run.inTurn_of_execute hrun herror
    exact hturn.ids
  failed := by
    constructor
    · intro hcode
      cases hcourse with
      | refused hs => cases hcode
      | unselected hs hc => cases hcode
      | idle hs hc => cases hcode
      | ran hs hr =>
        obtain ⟨herror, hfail⟩ := exitCode_eq_failed_iff.mp hcode
        exact ⟨_, _, hr, herror, hfail⟩
    · rintro ⟨selected, report, hr, herror, hfail⟩
      rw [hcourse.of_reports hr]
      exact exitCode_eq_failed_iff.mpr ⟨herror, hfail⟩
  passed := by
    have hsuccess : ∀ {selected report}, Reports h path f o selected report →
        (report.isSuccess = true ↔
          report.error = none ∧ List.Forall₂ Run.Passed selected report.cases) := by
      rintro selected report ⟨s, t, -, -, -, hrun⟩
      exact Run.success_iff hrun
    constructor
    · intro hcode
      cases hcourse with
      | refused hs => cases hcode
      | unselected hs hc => cases hcode
      | idle hs hc => exact ⟨hs, .inl (selectedCases_nil_iff.mp hc)⟩
      | ran hs hr =>
        have hpass := (hsuccess hr).mp (exitCode_eq_passed_iff.mp hcode)
        exact ⟨hs, .inr ⟨_, _, hr, hpass⟩⟩
    · rintro ⟨hs, hnil | ⟨selected, report, hr, hpass⟩⟩
      · exact hcourse.of_idle hs (selectedCases_nil_iff.mpr hnil)
      · rw [hcourse.of_reports hr]
        exact exitCode_eq_passed_iff.mpr ((hsuccess hr).mpr hpass)
  unlisted hl hs := by
    have hnil := taggedCases_of_unlisted hl
    rcases hid : o.caseId with _ | id
    · exact hcourse.of_idle hs (selectedCases_nil_iff.mpr ⟨hnil, hid⟩)
    · have hmissing : ∀ c ∈ ([] : List TestCase), c.id ≠ id := by simp
      exact hcourse.of_unselected (selectedCases_error_iff.mpr (.inr ⟨[], id, hnil, hid, hmissing⟩))

/-- The exit code of a command that runs cases and comes to an end, with a report file, if one is
wanted, that can be written. -/
theorem exit_code_told {arguments : List String} {i : Invocation} {out : Outcome σ}
    (hparse : Invocation.parse h.environment arguments = .ok i) (htask : i.task = .run o)
    (hwrite : ∀ path ∈ o.output, h.mayWrite path = .ok ())
    (hdone : execute h arguments = .done out) : ExitCode h i.config i.format o out.code := by
  have hcases : runCases h i.config i.format o = .done out := by
    rw [execute, hparse] at hdone
    simpa only [perform, htask] using hdone
  exact (course_of_runCases hwrite hcases).exitCode

/-- Surroundings without any files or variables. -/
def Host.bare : Host (List Nat) where
  environment := []
  look _ := .nothing
  runId := "run"
  freshId _ := "case"
  world _ := Browser.Script.world ⟨[], [], [], []⟩ false ⟨0, 0⟩
  page := []

/-- Cases are looked for where there is nothing, and the code is that of success. -/
theorem exit_code_told_nowhere :
    let arguments := ["run", "--url", "https://x.test/", "--cases", "nowhere"]
    ∃ i o out, Invocation.parse Host.bare.environment arguments = .ok i ∧ i.task = .run o ∧
      Host.bare.look o.cases = .nothing ∧ execute Host.bare arguments = .done out ∧
      out.code = 0 := by
  intro arguments
  let o : RunOptions := ⟨"nowhere", "https://x.test/", none, none, none, none, false, false, false, none⟩
  have hparse : Invocation.parse Host.bare.environment arguments =
      .ok ⟨"stepwise.toml", .table, .run o⟩ := by decide +kernel
  obtain ⟨out, hdone⟩ : ∃ out, execute Host.bare arguments = .done out := by
    rw [execute, hparse]
    exact ⟨_, rfl⟩
  have haccepted : ¬SettingsRefused Host.bare "stepwise.toml" := by
    rintro (⟨fault, hread⟩ | ⟨file, e, hread, hload⟩ | ⟨name, e, hname, -⟩)
    · cases hread
    · cases hread
      cases hload
    · cases hname
  have htold := exit_code_told hparse rfl (by simp [o]) hdone
  exact ⟨_, o, out, hparse, rfl, rfl, hdone, htold.unlisted trivial haccepted⟩

end Command

end PlainSteps
