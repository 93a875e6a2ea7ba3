import PlainSteps.Proofs.CaseVariables
import PlainSteps.Proofs.StoredText
import PlainSteps.Proofs.SubstitutedStore

/-!
# Storing again

`CaseRun.store_overwrites`: when a case stores under a name and stores under it again, the name holds the
later text. The second sentence counts as it is read, with the stored texts put in. Where it names the
variable without braces it still asks to store under it. Where it has the name between braces, the text
that the name holds stands there instead, and the later text goes to a variable of that name or to none;
the name then keeps its earlier text, though the step passes.
-/

namespace PlainSteps.CaseRun

open Text

variable {σ : Type}

/-- With the stored texts put in, a source is one line and not empty. -/
def Fits (vars : Variables) (source : List Char) : Prop :=
  vars.substituteChars source ≠ [] ∧ '\n' ∉ vars.substituteChars source

/-- What a step that passes does to a name that holds a text, by the variables before and after it. -/
structure Overwrites (r : CaseRunner) (w : World σ) (c : TestCase) (s : Session σ) (k : Nat)
    (raw name held : String) (vars vars' : Variables) : Prop where
  /-- A sentence that asks to store under the name, with the stored texts put in, does so, and
  the name between braces is replaced by the new text from then on. -/
  stored : ∀ source, Sentence.classify r.rules (vars.substitute raw) = .store source name →
    ∃ text, ReadsAt r w c s k source text ∧ vars'.get? name = some (trim text) ∧
      vars'.replacement name.toList = trimmed text.toList
  /-- Any other sentence leaves the text that the name holds. -/
  kept : (Sentence.classify r.rules (vars.substitute raw)).storesUnder? ≠ some name →
    vars'.get? name = some held
  /-- The sentence asks to store under the name when it has it without braces, as it stands or
  between quotation marks. -/
  plain : ∀ source word, Sentence.WritesStore raw.toList source word → '{' ∉ word →
    Sentence.nameIn word = name.toList → Fits vars source →
    ∃ target, Sentence.classify r.rules (vars.substitute raw) = .store target name
  /-- When it has the name between braces, it asks to store under the text that the name holds. -/
  braced : ∀ source, Sentence.WritesStore raw.toList source ('{' :: (name.toList ++ ['}'])) →
    isName held.toList = true → (∀ c ∈ held.toList.getLast?, Sentence.isFinalMark c = false) →
    Fits vars source →
    ∃ target, Sentence.classify r.rules (vars.substitute raw) = .store target held

section

variable {r : CaseRunner} {vars : Variables} {raw name : String}

theorem classify_plain (hname : isName name.toList = true) {source word : List Char}
    (h : Sentence.WritesStore raw.toList source word) (hbrace : '{' ∉ word)
    (hword : Sentence.nameIn word = name.toList) (hfits : Fits vars source) :
    ∃ target, Sentence.classify r.rules (vars.substitute raw) = .store target name := by
  have hsame : vars.substituteChars word = word := vars.substituteChars_eq_self hbrace
  have hclassify := Sentence.classify_substituted_store r.rules vars h hfits.1 hfits.2
    (by rw [hsame]; exact h.word_spec.1) (by rw [hsame]; exact h.word_spec.2)
    (by rw [hsame, hword]; exact hname)
  rwa [hsame, hword, String.ofList_toList] at hclassify

theorem classify_braced (hname : isName name.toList = true) {held : String}
    (hheld : vars.get? name = some held) {source : List Char}
    (h : Sentence.WritesStore raw.toList source ('{' :: (name.toList ++ ['}'])))
    (hvariable : isName held.toList = true)
    (hmark : ∀ c ∈ held.toList.getLast?, Sentence.isFinalMark c = false) (hfits : Fits vars source) :
    ∃ target, Sentence.classify r.rules (vars.substitute raw) = .store target held := by
  have hvalue : vars.substituteChars ('{' :: (name.toList ++ ['}'])) = held.toList := by
    rw [vars.substituteChars_placeholder
      (Variables.placeholder?_name hname (continuesName_of_isName hname) []),
      vars.substituteChars_nil, List.append_nil, Variables.replacement, String.ofList_toList, hheld]
  have hclassify := Sentence.classify_substituted_store r.rules vars h hfits.1 hfits.2
    (by rw [hvalue]; exact Sentence.not_blank_of_isName hvariable) (by rwa [hvalue])
    (by rw [hvalue, Sentence.nameIn_name hvariable]; exact hvariable)
  rwa [hvalue, Sentence.nameIn_name hvariable, String.ofList_toList] at hclassify

end

/-- A case stores under a name in two steps and not between them. If the second passes, the name holds
the text of the second when its sentence, as it is read, asks to store under the name, and the text of
the first otherwise; and what it holds then it keeps until a step stores under it. -/
theorem store_overwrites {r : CaseRunner} {w : World σ} {c : TestCase} {s t : Session σ}
    {x : CaseResult} (hrun : run r w c s = (.done x, t)) {i j : Nat} (hij : i < j)
    {first second name : String} (hname : isName name.toList = true)
    (hi : c.steps[i]? = some first) (hj : c.steps[j]? = some second)
    (hfirst : ∀ vars u, before r w c s i = some (vars, u) →
      ∃ source, Sentence.classify r.rules (vars.substitute first) = .store source name)
    (hbetween : ∀ k raw vars u, i < k → k < j → c.steps[k]? = some raw →
      before r w c s k = some (vars, u) →
      (Sentence.classify r.rules (vars.substitute raw)).storesUnder? ≠ some name)
    {y : StepResult} (hy : x.steps[j]? = some y) (hpass : y.status = .pass) :
    ∃ source held vars u vars' u', ReadsAt r w c s i source held ∧
      before r w c s j = some (vars, u) ∧ vars.get? name = some (trim held) ∧
      before r w c s (j + 1) = some (vars', u') ∧
      Overwrites r w c s j second name (trim held) vars vars' ∧
      ∀ k vars'' u'', j < k → before r w c s k = some (vars'', u'') →
        (∀ l raw v t, j < l → l < k → c.steps[l]? = some raw → before r w c s l = some (v, t) →
          (Sentence.classify r.rules (v.substitute raw)).storesUnder? ≠ some name) →
        vars''.get? name = vars'.get? name := by
  obtain ⟨raw, vars, u, vars', u', hraw, hbefore, hstep⟩ := oneStep_of_recorded hrun hy
  obtain rfl : raw = second := Option.some.inj (hraw.symm.trans hj)
  have hfail : y.isFail = false := by
    rw [StepResult.isFail, hpass]
    rfl
  have hafter := before_succ_of_oneStep hj hbefore hstep hfail
  -- the first step, and the places after it
  obtain ⟨⟨vars₁, u₁⟩, hbefore₁⟩ := before_of_le hij hbefore
  obtain ⟨vars₀, u₀, result, hbefore₀, hstep₀, hfail₀⟩ := oneStep_of_before_succ hi hbefore₁
  obtain ⟨source, hsource⟩ := hfirst vars₀ u₀ hbefore₀
  obtain ⟨held, hread, rfl⟩ := reads_of_oneStep hstep₀ hfail₀ hsource
  have hheld : vars.get? name = some (trim held) := by
    have hkept := get?_before hij (fun k raw v t hik hkj => hbetween k raw v t hik hkj) hbefore₁ hbefore
    rw [hkept, Variables.get?_set_self]
  refine ⟨source, held, vars, u, vars', u', ⟨first, vars₀, u₀, hi, hbefore₀, hread⟩, hbefore, hheld,
    hafter, ⟨?_, ?_, ?_, ?_⟩, ?_⟩
  · intro source' hsource'
    obtain ⟨text, hread', rfl⟩ := reads_of_oneStep hstep hfail hsource'
    have hget := Variables.get?_set_self vars name text
    refine ⟨text, ⟨raw, vars, u, hj, hbefore, hread'⟩, hget, ?_⟩
    rw [Variables.replacement, String.ofList_toList, hget]
    exact toList_trim text
  · intro hother
    rw [get?_of_oneStep hstep hother, hheld]
  · intro source' word hwrites hbrace hword hfits
    exact classify_plain hname hwrites hbrace hword hfits
  · intro source' hwrites hvariable hmark hfits
    exact classify_braced hname hheld hwrites hvariable hmark hfits
  · intro k vars'' u'' hjk hlater hkeep
    exact get?_before hjk (fun l raw v t hjl hlk => hkeep l raw v t hjl hlk) hafter hlater

/-- A page with two headings. -/
def headings : Browser.Script where
  rules := []
  texts := [("css=h1", "Welcome"), ("css=h2", " Second ")]
  echoes := []
  screenshot := []

/-- The second heading is stored in place of the first, with a check of the first between them. -/
theorem store_overwrites_headings :
    let r : CaseRunner := { CaseRunner.ofSettings {} StopWords.usual.resolver "run" "https://x.test/"
      with evidence := { captureScreenshots := false } }
    let w := headings.world false ⟨0, 0⟩
    let c : TestCase := { id := "headings", steps := [storing, checking, "Store text from \"h2\" as t"] }
    let s : Session (List Nat) := { page := [] }
    ∃ source text vars u, ReadsAt r w c s 2 source text ∧ trim text = "Second" ∧
      before r w c s 3 = some (vars, u) ∧ vars.replacement ['t'] = ['S', 'e', 'c', 'o', 'n', 'd'] := by
  intro r w c s
  have hw : w.Calm := Browser.Script.calm_world (by simp [headings]) _ _
  obtain ⟨x, t, hrun⟩ := run_done_of_calm r hw c s
  obtain ⟨y, hy, hpass⟩ : ∃ y, x.steps[2]? = some y ∧ y.status = .pass := by
    have hstatus : (match (run r w c s).1 with
        | .done x => (x.steps[2]?).map (·.status) == some .pass
        | .halted _ => false) = true := by decide +kernel
    rw [hrun] at hstatus
    exact Option.map_eq_some_iff.mp (beq_iff_eq.mp hstatus)
  have hfirst : ∀ vars u, before r w c s 0 = some (vars, u) → ∃ source,
      Sentence.classify r.rules (vars.substitute storing) = .store source "t" := by
    intro vars u h
    cases h
    rw [substitute_storing, classify_storing]
    exact ⟨_, rfl⟩
  have hbetween : ∀ k raw vars u, 0 < k → k < 2 → c.steps[k]? = some raw →
      before r w c s k = some (vars, u) →
      (Sentence.classify r.rules (vars.substitute raw)).storesUnder? ≠ some "t" := by
    intro k raw vars u h₀ h₂ hraw hbefore
    obtain rfl : k = 1 := by omega
    cases hraw
    have hvars : (before r w c s 1).map (·.1) = some ⟨[("t", "Welcome")]⟩ := by decide +kernel
    rw [hbefore] at hvars
    obtain rfl : vars = ⟨[("t", "Welcome")]⟩ := by simpa using hvars
    decide +kernel
  obtain ⟨-, held, vars, u, vars', u', -, -, -, hafter, hstep, -⟩ :=
    store_overwrites hrun (i := 0) (j := 2) (by decide) (by decide) rfl rfl hfirst hbetween hy hpass
  have hwrites : Sentence.WritesStore "Store text from \"h2\" as t".toList ['"', 'h', '2', '"'] ['t'] := by
    have hparts : (Sentence.Form.store.match? "Store text from \"h2\" as t".toList).map
        (fun f => (f.part .source, f.part .name)) = some (['"', 'h', '2', '"'], ['t']) := by
      decide +kernel
    obtain ⟨f, hf, hparts⟩ := Option.map_eq_some_iff.mp hparts
    refine ⟨?_, ?_, f, hf, congrArg Prod.fst hparts, congrArg Prod.snd hparts⟩
    · rintro _ ⟨⟩
      decide
    · rintro _ ⟨⟩
      decide
  have hfits : Fits vars ['"', 'h', '2', '"'] := by
    rw [Fits, vars.substituteChars_eq_self (by decide)]
    decide
  obtain ⟨source, hsource⟩ := hstep.plain _ _ hwrites (by decide) (by decide +kernel) hfits
  obtain ⟨text, hread, hget, hvalue⟩ := hstep.stored source hsource
  have hsecond : (before r w c s 3).map (·.1.get? "t") = some (some "Second") := by decide +kernel
  rw [hafter, Option.map_some, hget] at hsecond
  have htext : trim text = "Second" := by simpa using hsecond
  refine ⟨source, text, vars', u', hread, htext, hafter, hvalue.trans ?_⟩
  rw [← toList_trim, htext]
  decide

end PlainSteps.CaseRun
