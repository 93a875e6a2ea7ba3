import PlainSteps.Proofs.Trimming
import PlainSteps.Sentence.Classify

/-!
# From the forms of a sentence to its action

* `Sentence.normalized_eq_self` : a sentence without a number in a list and without final punctuation is
  its own normal form.
* `Sentence.store?_eq_none` and its companions : without its form a sentence does not ask for an action.
* `Sentence.classify_of_store` : a sentence that asks to store a text does just that.
* `Sentence.classify_of_plain` : otherwise, unless the sentence is conditional, its action is that of
  the first plain form it has.
* `Sentence.classifyWith_cases` : one level of classification gives a simple action, whatever the limit
  on nesting, or a conditional step around the action of the sentence within (`consequence?`).
-/

namespace PlainSteps.Sentence

open Pattern Text

theorem normalized_eq_self {s : List Char} (hnumber : Form.numbering.match? s = none)
    (hfirst : ∀ c ∈ s.head?, isBlank c = false)
    (hlast : ∀ c ∈ s.getLast?, isBlank c = false ∧ isFinalMark c = false) : normalized s = s := by
  have htrim : trimmed s = s := trimmed_eq_self hfirst fun c hc => (hlast c hc).1
  have hmarks : dropEndWhile isFinalMark s = s := dropEndWhile_of_last fun c hc => (hlast c hc).2
  simp only [normalized, htrim, hnumber, hmarks]

/-! ## Forms that a sentence does not have -/

section

variable {s : List Char}

theorem store?_eq_none (h : Form.store.match? s = none) : store? s = none := by
  rw [store?, h]
  rfl

theorem pageLoad?_eq_none (h : Form.pageLoad.match? s = none) : pageLoad? s = none := by
  rw [pageLoad?, matches?, h]
  rfl

theorem waitFor?_eq_none (hduration : Form.duration.match? s = none)
    (h : Form.waitFor.match? s = none) : waitFor? s = none := by
  rw [waitFor?, matches?, hduration, h]
  rfl

end

/-! ## Actions -/

section

variable {rules : Rules} {text : List Char} {action : Action}

theorem classify_of_classifyWith
    (h : ∀ inner, classifyWith rules.usualPause inner text = action) :
    classify rules (String.ofList text) = action := by
  rw [classify, String.toList_ofList]
  cases rules.maxDepth with
  | zero => exact h none
  | succ depth => exact h (some _)

theorem classify_of_store (hne : normalized text ≠ [])
    (h : store? (normalized text) = some action) :
    classify rules (String.ofList text) = action := by
  have hnonempty : ¬(normalized text).isEmpty = true := by simpa using hne
  refine classify_of_classifyWith fun inner => ?_
  simp only [classifyWith, if_neg hnonempty, h]

theorem classify_eq_plain (hne : normalized text ≠ []) (hstore : store? (normalized text) = none)
    (hconditional : Form.conditional.match? (normalized text) = none) :
    classify rules (String.ofList text) = (plainAction? rules.usualPause (normalized text)).getD
      (.unknown (String.ofList (trimmed text))) := by
  have hnonempty : ¬(normalized text).isEmpty = true := by simpa using hne
  refine classify_of_classifyWith fun inner => ?_
  simp only [classifyWith, if_neg hnonempty, hstore, hconditional]

theorem classify_of_plain (hne : normalized text ≠ []) (hstore : store? (normalized text) = none)
    (hconditional : Form.conditional.match? (normalized text) = none)
    (h : plainAction? rules.usualPause (normalized text) = some action) :
    classify rules (String.ofList text) = action := by
  rw [classify_eq_plain hne hstore hconditional, h, Option.getD_some]

end

/-! ## One level of classification -/

/-- The sentence that a conditional step carries out when its condition holds. -/
def consequence? (text : List Char) : Option (List Char) :=
  if (store? (normalized text)).isSome then none
  else (Form.conditional.match? (normalized text)).map (·.part .consequence)

/-- The actions of sentences that hold no other sentence, each with where its parts come from. -/
inductive Simple : Action → Prop where
  | store (source : List Char) {name : List Char} (h : isName name = true) :
      Simple (.store (operand source) (String.ofList name))
  | pageLoad : Simple .waitForLoad
  | waitFor (target : List Char) (state : ElementState) : Simple (.waitFor (operand target) state)
  | click (target : List Char) : Simple (.click (operand target))
  | fill (value : String) (target : List Char) : Simple (.fill value (operand target))
  | navigate {candidate url : List Char} (h : address? candidate = some url) :
      Simple (.navigate (String.ofList url))
  | verify {target : List Char} (h : trimmed target ≠ []) : Simple (.verify (operand target))
  | pause (seconds : Number.Binary64) : Simple (.waitDuration seconds)
  | unknown (text : String) : Simple (.unknown text)

section

variable {usual : Number.Binary64} {s : List Char} {action : Action}

theorem simple_of_store (h : store? s = some action) : Simple action := by
  obtain ⟨f, -, hname⟩ := Option.bind_eq_some_iff.mp h
  simp only [Option.ite_none_right_eq_some, Option.some.injEq] at hname
  obtain ⟨hname, rfl⟩ := hname
  exact .store _ hname

theorem simple_of_pageLoad (h : pageLoad? s = some action) : Simple action := by
  rw [pageLoad?, Option.ite_none_right_eq_some] at h
  obtain ⟨-, h⟩ := h
  cases h
  exact .pageLoad

theorem simple_of_waitFor (h : waitFor? s = some action) : Simple action := by
  rw [waitFor?, Option.ite_none_left_eq_some] at h
  obtain ⟨f, -, hf⟩ := Option.bind_eq_some_iff.mp h.2
  cases hf
  exact .waitFor _ _

theorem simple_of_click (h : click? s = some action) : Simple action := by
  obtain ⟨f, -, hf⟩ := Option.bind_eq_some_iff.mp h
  cases hf
  exact .click _

theorem simple_of_fill (h : fill? s = some action) : Simple action := by
  obtain ⟨f, -, hf⟩ := Option.bind_eq_some_iff.mp h
  obtain ⟨g, -, hg⟩ := Option.bind_eq_some_iff.mp hf
  cases hg
  exact .fill _ _

theorem simple_of_navigate (h : navigate? s = some action) : Simple action := by
  obtain ⟨f, -, hf⟩ := Option.bind_eq_some_iff.mp h
  obtain ⟨url, haddress, hurl⟩ := Option.bind_eq_some_iff.mp hf
  cases hurl
  exact .navigate haddress

theorem simple_of_verify (h : verify? s = some action) : Simple action := by
  obtain ⟨f, -, hf⟩ := Option.bind_eq_some_iff.mp h
  simp only [Option.ite_none_left_eq_some, Option.some.injEq] at hf
  obtain ⟨hne, rfl⟩ := hf
  exact .verify fun hnil => hne (by rw [hnil]; rfl)

theorem simple_of_pause (h : pause? usual s = some action) : Simple action := by
  rw [pause?] at h
  split at h
  · obtain ⟨n, -, rfl⟩ := Option.map_eq_some_iff.mp h
    exact .pause _
  · rw [Option.ite_none_right_eq_some] at h
    obtain ⟨-, h⟩ := h
    cases h
    exact .pause _

theorem simple_of_plainAction (h : plainAction? usual s = some action) : Simple action := by
  obtain ⟨form, hform, h⟩ := List.exists_of_findSome?_eq_some h
  simp only [List.mem_cons, List.not_mem_nil, or_false] at hform
  rcases hform with rfl | rfl | rfl | rfl | rfl | rfl | rfl
  · exact simple_of_pageLoad h
  · exact simple_of_waitFor h
  · exact simple_of_click h
  · exact simple_of_fill h
  · exact simple_of_navigate h
  · exact simple_of_verify h
  · exact simple_of_pause h

end

/-- A sentence holds no other one, and then the limit on nesting does not matter to it, or it is a
conditional step; one at the limit is unknown. -/
theorem classifyWith_cases (usual : Number.Binary64) (text : List Char) :
    (∃ action, Simple action ∧ ∀ inner, classifyWith usual inner text = action) ∨
    ∃ target condition sentence shown, consequence? text = some sentence ∧
      classifyWith usual none text = .unknown shown ∧
      ∀ classify, classifyWith usual (some classify) text =
        .conditional (operand target) condition (classify sentence) := by
  by_cases hempty : (normalized text).isEmpty = true
  · exact .inl ⟨_, .unknown (String.ofList text), fun inner => by rw [classifyWith, if_pos hempty]⟩
  · simp only [classifyWith, if_neg hempty, consequence?]
    cases hstore : store? (normalized text) with
    | some action => exact .inl ⟨action, simple_of_store hstore, fun _ => rfl⟩
    | none =>
      cases hconditional : Form.conditional.match? (normalized text) with
      | some f => exact .inr ⟨_, _, _, _, rfl, rfl, fun _ => rfl⟩
      | none =>
        refine .inl ⟨_, ?_, fun _ => rfl⟩
        cases hplain : plainAction? usual (normalized text) with
        | some action => exact simple_of_plainAction hplain
        | none => exact .unknown _

end PlainSteps.Sentence
