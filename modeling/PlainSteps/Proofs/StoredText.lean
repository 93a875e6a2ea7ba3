import PlainSteps.Proofs.ObligingBrowser
import PlainSteps.Proofs.QuotedCheck
import PlainSteps.Proofs.Substitution

/-!
# Checking a stored text

`CaseRun.stored_text_checked`: a case that stores the text of a heading and then checks it waits for
that very text, whatever marks, braces or words it holds, unless there is a line feed in it: then the
check has no form, makes no request and still passes, with a note.
-/

namespace PlainSteps

open Text

variable {σ : Type}

/-! ## The two sentences -/

/-- The sentence that stores the text of the heading. -/
def storing : String := "Store text from \"h1\" as \"t\""

/-- The sentence that checks what was stored. -/
def checking : String := "Verify \"{t}\""

theorem substitute_storing : Variables.empty.substitute storing = storing := by
  decide +kernel

/-- The first sentence stores the text of the heading under a name, however deep conditional
sentences may nest. -/
theorem classify_storing (rules : Sentence.Rules) :
    Sentence.classify rules storing = .store (.implied (String.ofList (inQuotes ['h', '1']))) "t" := by
  have hstore : Sentence.store? (Sentence.normalized storing.toList) =
      some (.store (.implied (String.ofList (inQuotes ['h', '1']))) "t") := by decide +kernel
  have hne : Sentence.normalized storing.toList ≠ [] := by decide +kernel
  have hclassify : Sentence.classify rules (String.ofList storing.toList) = _ :=
    Sentence.classify_of_store hne hstore
  rwa [String.ofList_toList] at hclassify

theorem substitute_checking (text : String) :
    (Variables.empty.set "t" text).substitute checking =
      String.ofList (Sentence.check (trimmed text.toList)) := by
  have hname : Variables.placeholder? ['t', '}', '"'] = some (['t'], ['"']) := by decide +kernel
  have hvalue : (Variables.empty.set "t" text).replacement ['t'] = trimmed text.toList := by
    have hget : (Variables.empty.set "t" text).get? (String.ofList ['t']) = some (trim text) :=
      Variables.get?_set_self _ _ _
    rw [Variables.replacement, hget]
    exact toList_trim text
  have hchars : checking.toList = (Sentence.verb ++ ['"']) ++ '{' :: ['t', '}', '"'] := by
    decide +kernel
  rw [Variables.substitute, hchars, Variables.substituteChars_append _ (by decide),
    Variables.substituteChars_placeholder _ hname, hvalue,
    Variables.substituteChars_cons _ (by decide), Variables.substituteChars_nil]
  simp [Sentence.check, inQuotes]

/-! ## Their locators -/

theorem locators_heading (words : StopWords) :
    ∃ others, words.resolver (String.ofList (inQuotes ['h', '1'])) .store = "css=h1" :: others := by
  have hhint : String.ofList (trimmed ['h', '1']) = "h1" := by decide
  rw [StopWords.resolver, StopWords.sanitize_inQuotes, hhint]
  exact ⟨[withAttribute "data-testid" "h1", withAttribute "aria-label" "h1",
    withAttribute "name" "h1", "text=h1"], by decide +kernel⟩

theorem locators_checked (words : StopWords) {s : List Char} (hs : trimmed s ≠ []) :
    words.resolver (String.ofList (inQuotes s)) .verify =
      ["text=" ++ String.ofList (trimmed s)] := by
  have hne : ¬(String.ofList (trimmed s)).isEmpty = true := by
    rw [String.isEmpty_iff]
    simpa using hs
  rw [StopWords.resolver, StopWords.sanitize_inQuotes, candidates]
  simp only [if_neg hne]

/-! ## The case -/

namespace CaseRun

variable {w : World σ} {d : Nat} {s : Session σ}

theorem storing_meets (hw : w.Obliging) {r : CaseRunner} {words : StopWords}
    (hresolve : r.resolve = words.resolver) {text : String} (htext : w.Reads "css=h1" text)
    (caseId : String) (hs : s.now ≤ d) :
    Ended.Meets (fun p t => p.1.status = .pass ∧ p.2 = Variables.empty.set "t" text ∧
        s.Asked d (.readText "css=h1" r.execution.candidateTimeout ::
          (r.context caseId).afterwards) t)
      (oneStep r w (some d) caseId storing 0 .empty s) := by
  obtain ⟨others, hlocators⟩ := locators_heading words
  rw [← hresolve] at hlocators
  have hstep := oneStep_meets hw r caseId storing 0 .empty _ _ _ hs fun t ht => by
    rw [substitute_storing, classify_storing]
    exact Step.store_meets hw hlocators htext .empty ht
  refine hstep.mono ?_
  rintro p t ⟨hstatus, -, hvars, hasked⟩
  exact ⟨hstatus, hvars, hasked⟩

/-- What the check comes to: the note on it and the requests that it makes. -/
inductive Checked (execution : ExecutionSettings) (text : String) :
    Option StepNote → List Call → Prop
  /-- A text on one line is waited for as it stands. -/
  | whole (h : '\n' ∉ (trim text).toList) : Checked execution text none
      [.waitFor ("text=" ++ trim text) .visible execution.waitTimeout]
  /-- With a line feed in the text nothing is checked. -/
  | broken (h : '\n' ∈ (trim text).toList) : Checked execution text (some .unrecognized) []

theorem checking_meets (hw : w.Obliging) {r : CaseRunner} {words : StopWords}
    (hresolve : r.resolve = words.resolver) {text : String} (hne : trim text ≠ "")
    (hplain : locatorEngine? (trim text).toList = none) (caseId : String) (hs : s.now ≤ d) :
    ∃ made, Ended.Meets (fun p t => p.1.status = .pass ∧
        Checked r.execution text p.1.note made ∧
        s.Asked d (made ++ (r.context caseId).afterwards) t)
      (oneStep r w (some d) caseId checking 1 (Variables.empty.set "t" text) s) := by
  rw [toList_trim] at hplain
  by_cases hline : '\n' ∈ (trim text).toList
  · refine ⟨[], ?_⟩
    have hstep := oneStep_meets hw r caseId checking 1 (Variables.empty.set "t" text)
      (Variables.empty.set "t" text) (.skipped .unrecognized) [] hs fun t ht => by
        rw [substitute_checking, ← toList_trim, Sentence.classify_check, if_pos hline]
        exact .of_done ⟨rfl, .refl ht⟩
    refine hstep.mono ?_
    rintro p t ⟨hstatus, hnote, -, hasked⟩
    exact ⟨hstatus, hnote ▸ .broken hline, hasked⟩
  · refine ⟨[.waitFor ("text=" ++ trim text) .visible r.execution.waitTimeout], ?_⟩
    have hlocators : r.resolve (String.ofList (inQuotes (trimmed text.toList))) .verify =
        ["text=" ++ trim text] := by
      rw [hresolve, locators_checked words, trimmed_trimmed]
      · rfl
      · rw [trimmed_trimmed]
        intro hnil
        exact hne (by rw [trim, hnil])
    have hstep := oneStep_meets hw r caseId checking 1 (Variables.empty.set "t" text)
      (Variables.empty.set "t" text) .done
      [.waitFor ("text=" ++ trim text) .visible r.execution.waitTimeout] hs fun t ht => by
        rw [toList_trim] at hline
        rw [substitute_checking, Sentence.classify_check, if_neg hline,
          Sentence.operand_inQuotes _ (by rwa [trimmed_trimmed])]
        exact Step.verify_meets hw hlocators _ ht
    refine hstep.mono ?_
    rintro p t ⟨hstatus, hnote, -, hasked⟩
    exact ⟨hstatus, hnote ▸ .whole hline, hasked⟩

/-- A case that stores the text of the heading and checks it, on a browser on which every request
succeeds: if its time is not over, both steps pass, and after the first one the check waits for the
stored text, or has a note if there is a line feed in it. -/
theorem stored_text_checked {r : CaseRunner} {words : StopWords} (hresolve : r.resolve = words.resolver)
    (hw : w.Obliging) {text : String} (htext : w.Reads "css=h1" text) (hne : trim text ≠ "")
    (hplain : locatorEngine? (trim text).toList = none) {c : TestCase}
    (hc : c.steps = [storing, checking]) (s : Session σ) :
    ∃ x t, run r w c s = (.done x, t) ∧ (x.termination ≠ .timedOut →
      ∃ a b vars u made,
        oneStep r w (some (deadline r s)) c.id storing 0 .empty
          (s.capture r.evidence.captureNetwork) = (.done (a, vars), u) ∧
        x.steps = [a, b] ∧ a.status = .pass ∧ b.status = .pass ∧
        Checked r.execution text b.note made ∧
        u.requests = s.requests ++ .readText "css=h1" r.execution.candidateTimeout ::
          (r.context c.id).afterwards ∧
        t.requests = u.requests ++ (made ++ (r.context c.id).afterwards)) := by
  obtain ⟨x, t, hrun⟩ := run_done_of_calm r hw.calm c s
  refine ⟨x, t, hrun, fun htime => ?_⟩
  have hover : (carried r w c s).ending ≠ .halted .deadline := by
    intro hend
    rw [run_eq, hend] at hrun
    cases hrun
    exact htime rfl
  have hbegun : carried r w c s = runSteps r w (some (deadline r s)) c.id [storing, checking] 0
      .empty (s.capture r.evidence.captureNetwork) := by
    unfold carried at hover ⊢
    split
    · rw [hc]
    · rename_i hnot
      exact absurd (by rw [if_neg hnot]) hover
  rw [hbegun] at hover
  have hnow : (s.capture r.evidence.captureNetwork).now ≤ deadline r s := now_le_deadline r s
  rcases storing_meets hw hresolve htext c.id hnow with hhalted | ⟨⟨a, vars⟩, u, hfirst, ha, rfl, hu⟩
  · exact absurd (ending_cons_of_halted hhalted) hover
  · obtain ⟨made, hsecond⟩ := checking_meets hw hresolve hne hplain c.id hu.2
    rw [runSteps_cons_of_pass hfirst ha] at hbegun hover
    rcases hsecond with hhalted | ⟨⟨b, vars'⟩, v, hsecond, hb, hchecked, hv⟩
    · exact absurd (ending_cons_of_halted hhalted) hover
    · rw [runSteps_cons_of_pass hsecond hb, runSteps_nil] at hbegun
      rw [run_eq, hbegun] at hrun
      cases hrun
      refine ⟨a, b, _, u, made, hfirst, rfl, ha, hb, hchecked, ?_, ?_⟩
      · rw [hu.1, Session.requests_capture]
      · rw [Session.requests_capture, hv.1]

/-- A page whose heading has quotation marks in it. -/
def shop : Browser.Script where
  rules := []
  texts := [("css=h1", "The \"Best\" Shop")]
  echoes := []
  screenshot := []

/-- The heading is waited for with its marks. -/
theorem stored_text_checked_shop :
    let r : CaseRunner := { CaseRunner.ofSettings {} StopWords.usual.resolver "run" "https://x.test/"
      with evidence := { captureScreenshots := false } }
    let w := shop.world false ⟨0, 0⟩
    let c : TestCase := { id := "title", steps := [storing, checking] }
    ∃ x t, run r w c { page := [] } = (.done x, t) ∧ x.termination = .completed ∧
      t.requests = [.readText "css=h1" 2000,
        .waitFor "text=The \"Best\" Shop" .visible 10000] := by
  intro r w c
  have hw : w.Obliging := Browser.Script.obliging_world shop false ⟨0, 0⟩ rfl
  have htext : w.Reads "css=h1" "The \"Best\" Shop" :=
    Browser.Script.reads_world shop false ⟨0, 0⟩ (by decide)
  have htrim : trim "The \"Best\" Shop" = "The \"Best\" Shop" := by decide +kernel
  have hresolve : r.resolve = StopWords.usual.resolver := by dsimp only [r, CaseRunner.ofSettings]
  obtain ⟨x, t, hrun, hx⟩ := stored_text_checked hresolve hw htext
    (by rw [htrim]; decide) (by rw [htrim]; decide +kernel) (c := c) rfl { page := [] }
  have htermination : (match (run r w c { page := [] }).1 with
      | .done x => x.termination == .completed
      | .halted _ => false) = true := by decide +kernel
  rw [hrun] at htermination
  have hcompleted : x.termination = .completed := beq_iff_eq.mp htermination
  obtain ⟨a, b, vars, u, made, -, -, -, -, hchecked, hu, ht⟩ := hx (by rw [hcompleted]; decide)
  have hline : '\n' ∉ (trim "The \"Best\" Shop").toList := by rw [htrim]; decide +kernel
  refine ⟨x, t, hrun, hcompleted, ?_⟩
  generalize b.note = note at hchecked
  cases hchecked with
  | whole =>
    rw [ht, hu, htrim]
    rfl
  | broken h => exact absurd h hline

end CaseRun

end PlainSteps
