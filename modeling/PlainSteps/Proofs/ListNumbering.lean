import PlainSteps.Proofs.ConditionEnds
import PlainSteps.Proofs.DecimalDigits
import PlainSteps.Proofs.WordCharacters

/-!
# Numbers in a list and final marks

A sentence may stand in a list, with a number before it (`IsNumbering`) and marks after it. Neither
changes what it asks for.

* `match?_numbering` : a numbering is read up to the first character of the sentence after it. The digits
  end at the separator, so there is no other way to read it.
* `exists_numbering_of_match?` : nothing else is read as one, so a sentence without a numbering keeps all
  its characters.
* `normalized_numbered` : with both taken off, the sentence has the normal form that it has by itself.
* `classifyWith_alike` : classification looks at the normal form, and only an unknown action keeps more of
  the sentence.
-/

namespace PlainSteps

/-- The same action, but for the text of an unknown one. -/
inductive Action.Alike : Action → Action → Prop
  | same (action : Action) : Alike action action
  | unknown (text text' : String) : Alike (.unknown text) (.unknown text')

namespace Sentence

open Pattern Form Text

/-! ## Numberings -/

/-- The word `step` with the blanks after it, or nothing. -/
inductive IsStepWord : List Char → Prop
  | none : IsStepWord []
  | some {w g : List Char} (hw : w.map foldCase = "step".toList) (hg : ∀ c ∈ g, isBlank c = true) :
      IsStepWord (w ++ g)

/-- The number of a step in a list: digits and a separator, with a gap after them. Blanks may stand
before the separator, and the word `step` before the digits. -/
inductive IsNumbering : List Char → Prop
  | intro {step digits space gap : List Char} {mark : Char} (hstep : IsStepWord step)
      (hne : digits ≠ []) (hdigits : ∀ c ∈ digits, isDigit c = true)
      (hspace : ∀ c ∈ space, isBlank c = true) (hmark : mark ∈ ['.', ')', ':']) (hgap : IsGap gap) :
      IsNumbering (step ++ (digits ++ (space ++ mark :: gap)))

/-- The sentence begins with a numbering. -/
def StartsNumbered (s : List Char) : Prop := ∃ lead rest, s = lead ++ rest ∧ IsNumbering lead

/-- What separates a number from the sentence after it. -/
def isSeparator (c : Char) : Bool := c == '.' || c == ')' || c == ':'

theorem isSeparator_iff {c : Char} : isSeparator c = true ↔ c ∈ ['.', ')', ':'] := by
  simp [isSeparator, or_assoc]

/-- What is read after the word `step`. -/
def numberForms : List Form := [number, blanks, one isSeparator, gap]

theorem numbering_eq : Form.numbering =
    chain (blanks :: optional (both (word "step") blanks) :: numberForms) := rfl

theorem not_blank_of_digit {c : Char} (h : isDigit c = true) : isBlank c = false := by
  by_contra hblank
  rw [Bool.not_eq_false] at hblank
  have hword := isWordChar_of_isDigit h
  rw [not_wordChar_of_blank hblank] at hword
  cases hword

theorem separator_spec {c : Char} (h : c ∈ ['.', ')', ':']) :
    isBlank c = false ∧ isDigit c = false := by
  simp only [List.mem_cons, List.not_mem_nil, or_false] at h
  rcases h with rfl | rfl | rfl <;> exact ⟨rfl, rfl⟩

theorem not_digit_of_foldCase {c : Char} (h : foldCase c = 's') : isDigit c = false := by
  unfold foldCase at h
  split at h
  · rename_i hc
    exact (word_spec_of_letter (by simp [isAsciiLetter, hc.1, hc.2])).2
  · split at h
    · rename_i hc
      subst hc
      decide
    · split at h
      · cases h
      · subst h
        decide

theorem isNumbering_toString {step gap : List Char} {mark : Char} (hstep : IsStepWord step) (n : Nat)
    (hmark : mark ∈ ['.', ')', ':']) (hgap : IsGap gap) :
    IsNumbering (step ++ ((toString n).toList ++ mark :: gap)) := by
  have hdigits : ∀ c ∈ Nat.toDigits 10 n, isDigit c = true :=
    fun c hc => Number.all_digits (by decide) (Number.isAsciiDigit_of_mem_toDigits hc)
  have h : IsNumbering (step ++ (Nat.toDigits 10 n ++ ([] ++ mark :: gap))) :=
    .intro hstep Nat.toDigits_ne_nil hdigits (List.forall_mem_nil _) hmark hgap
  rwa [Number.toList_toString]

section

variable {α : Type} {lead s : List Char}

/-! ## How a numbering is read -/

theorem first_numberForms {digits space gap : List Char} {mark : Char} (hne : digits ≠ [])
    (hdigits : ∀ c ∈ digits, isDigit c = true) (hspace : ∀ c ∈ space, isBlank c = true)
    (hmark : mark ∈ ['.', ')', ':']) (hgap : IsGap gap) (hs : ∀ c ∈ s.head?, isBlank c = false)
    {next : Place → Parts Part → Option α} {x : α} (before : List Char)
    (hx : next ⟨(digits ++ (space ++ mark :: gap)).reverse ++ before, s⟩ [] = some x) :
    (chain numberForms).first next ⟨before, digits ++ (space ++ mark :: (gap ++ s))⟩ [] = some x := by
  have hend : ∀ c ∈ (space ++ mark :: (gap ++ s)).head?, isDigit c = false := by
    intro c hc
    cases space with
    | nil =>
      obtain rfl : mark = c := by simpa using hc
      exact (separator_spec hmark).2
    | cons d space =>
      obtain rfl : d = c := by simpa using hc
      by_contra hdigit
      rw [Bool.not_eq_false] at hdigit
      have hblank := hspace d List.mem_cons_self
      rw [not_blank_of_digit hdigit] at hblank
      cases hblank
  have hmarkEnd : ∀ c ∈ (mark :: (gap ++ s)).head?, isBlank c = false := by
    rintro c ⟨rfl⟩
    exact (separator_spec hmark).1
  have hsep : ∀ before : List Char, ((one isSeparator).ways ⟨before, mark :: (gap ++ s)⟩ []) =
      [((⟨mark :: before, gap ++ s⟩, []) : Place × Parts Part)] :=
    fun before => if_pos (isSeparator_iff.mpr hmark)
  unfold numberForms
  rw [first_chain_cons]
  apply first_of_head (head?_ways_run hne hdigits hend before [])
  rw [first_chain_cons]
  apply first_of_head (head?_ways_many hspace hmarkEnd _ [])
  rw [first_chain_cons, first_of_ways (hsep _)]
  apply first_of_head (head?_ways_gap hgap hs _ [])
  simpa [List.append_assoc] using hx

theorem ways_step_of_digit {c : Char} (hc : isDigit c = true) (before s : List Char) :
    (both (word "step") blanks).ways ⟨before, c :: s⟩ [] = [] := by
  refine List.eq_nil_iff_forall_not_mem.mpr fun r hr => ?_
  obtain ⟨m, hword, -⟩ := mem_ways_both.mp hr
  obtain ⟨t, hafter, -, ht⟩ := mem_ways_letters hword
  cases t with
  | nil => cases ht
  | cons d t =>
    obtain ⟨rfl, -⟩ := List.cons.inj hafter
    obtain ⟨hfold, -⟩ := List.cons.inj ht
    rw [not_digit_of_foldCase hfold] at hc
    cases hc

theorem first_step {step : List Char} (hstep : IsStepWord step) {c : Char} (hc : isDigit c = true)
    {next : Place → Parts Part → Option α} {x : α}
    (hx : next ⟨step.reverse, c :: s⟩ [] = some x) :
    (optional (both (word "step") blanks)).first next ⟨[], step ++ c :: s⟩ [] = some x := by
  cases hstep with
  | none =>
    have hnone : (both (word "step") blanks).first next ⟨[], c :: s⟩ [] = none := by
      rw [first_eq_findSome, ways_step_of_digit hc, List.findSome?_nil]
    unfold Form.optional
    rw [List.nil_append, first, hnone]
    exact hx
  | @some w g hw hg =>
    apply first_either_of_some
    rw [first, List.append_assoc, word, first_of_ways (ways_letters hw [] _ [])]
    have hstop : ∀ d ∈ (c :: s).head?, isBlank d = false := by
      rintro d ⟨rfl⟩
      exact not_blank_of_digit hc
    apply first_of_head (head?_ways_many hg hstop _ [])
    simpa using hx

theorem IsNumbering.exists_first (h : IsNumbering lead) :
    ∃ c t, lead = c :: t ∧ (isDigit c = true ∨ foldCase c = 's') := by
  obtain ⟨hstep, hne, hdigits, -, -, -⟩ := h
  cases hstep with
  | none =>
    obtain ⟨c, digits, rfl⟩ := List.exists_cons_of_ne_nil hne
    exact ⟨c, _, rfl, .inl (hdigits c List.mem_cons_self)⟩
  | @some w g hw hg =>
    cases w with
    | nil => cases hw
    | cons c w => exact ⟨c, _, rfl, .inr (List.cons.inj hw).1⟩

theorem IsNumbering.first_not_blank (h : IsNumbering lead) (s : List Char) :
    ∀ c ∈ (lead ++ s).head?, isBlank c = false := by
  obtain ⟨c, t, rfl, hc⟩ := h.exists_first
  rintro d ⟨rfl⟩
  rcases hc with hc | hc
  · exact not_blank_of_digit hc
  · exact not_blank_of_foldCase (by rw [hc]; rfl)

theorem first_numbering (h : IsNumbering lead) (hs : ∀ c ∈ s.head?, isBlank c = false)
    {next : Place → Parts Part → Option α} {x : α} (hx : next ⟨lead.reverse, s⟩ [] = some x) :
    Form.numbering.first next (Place.start (lead ++ s)) [] = some x := by
  have hfirst := h.first_not_blank s
  have hblanks : (blanks.ways (Place.start (lead ++ s)) []).head? = some (Place.start (lead ++ s), []) :=
    head?_ways_many (List.forall_mem_nil _) hfirst [] []
  rw [numbering_eq, first_chain_cons]
  apply first_of_head hblanks
  rw [first_chain_cons]
  obtain ⟨hstep, hne, hdigits, hspace, hmark, hgap⟩ := h
  rename_i step digits space gap mark
  rw [List.reverse_append] at hx
  have hnumber := first_numberForms hne hdigits hspace hmark hgap hs step.reverse hx
  obtain ⟨c, digits, rfl⟩ := List.exists_cons_of_ne_nil hne
  simp only [Place.start, List.append_assoc, List.cons_append] at hnumber ⊢
  exact first_step hstep (hdigits c List.mem_cons_self) hnumber

theorem match?_numbering (h : IsNumbering lead) (hs : ∀ c ∈ s.head?, isBlank c = false) :
    ∃ f, Form.numbering.match? (lead ++ s) = some f ∧ f.stop.after = s :=
  ⟨⟨Place.start (lead ++ s), ⟨lead.reverse, s⟩, []⟩, first_numbering h hs rfl, rfl⟩

theorem exists_numbering_of_match? {f : Found Part} (h : Form.numbering.match? s = some f)
    (hs : ∀ c ∈ s.head?, isBlank c = false) : StartsNumbered s := by
  obtain ⟨r, hr, -⟩ := exists_way_of_matchAt? h
  rw [numbering_eq] at hr
  obtain ⟨m₁, hblanks, hr⟩ := mem_ways_chain_cons.mp hr
  obtain ⟨m₂, hstep, hr⟩ := mem_ways_chain_cons.mp hr
  obtain ⟨m₃, hnumber, hr⟩ := mem_ways_chain_cons.mp hr
  obtain ⟨m₄, hspace, hr⟩ := mem_ways_chain_cons.mp hr
  obtain ⟨m₅, hmark, hgap⟩ := mem_ways_chain_cons.mp hr
  obtain ⟨t, hafter₁, -, ht, -⟩ := mem_ways_many.mp hblanks
  -- the text begins with no blank, so none is read
  obtain rfl : t = [] := by
    cases t with
    | nil => rfl
    | cons c t =>
      have hread : s = c :: (t ++ m₁.1.after) := hafter₁
      have hblank := ht c List.mem_cons_self
      rw [hs c (by rw [hread]; rfl)] at hblank
      cases hblank
  have hword : ∃ w, m₁.1.after = w ++ m₂.1.after ∧ IsStepWord w := by
    rcases mem_ways_either.mp hstep with hstep | hstep
    · obtain ⟨n, hletters, hn⟩ := mem_ways_both.mp hstep
      obtain ⟨w, hafter, -, hw⟩ := mem_ways_letters hletters
      obtain ⟨g, hafter', -, hg, -⟩ := mem_ways_many.mp hn
      exact ⟨w ++ g, by rw [hafter, hafter', List.append_assoc], .some hw hg⟩
    · rw [mem_ways_nothing.mp hstep]
      exact ⟨[], rfl, .none⟩
  obtain ⟨w, hafter₂, hw⟩ := hword
  obtain ⟨digits, hne, hafter₃, -, hdigits, -⟩ := mem_ways_run.mp hnumber
  obtain ⟨g, hafter₄, -, hg, -⟩ := mem_ways_many.mp hspace
  obtain ⟨mark, u, hafter₅, hsep, rfl⟩ := mem_ways_one.mp hmark
  obtain ⟨g', hafter₆, hg'⟩ := gap_of_mem_ways hgap
  refine ⟨_, r.1.after, ?_, .intro hw hne hdigits hg (isSeparator_iff.mp hsep) hg'⟩
  calc s = m₁.1.after := hafter₁
    _ = w ++ (digits ++ (g ++ mark :: u)) := by rw [hafter₂, hafter₃, hafter₄, hafter₅]
    _ = w ++ (digits ++ (g ++ mark :: g')) ++ r.1.after := by
      rw [show u = g' ++ r.1.after from hafter₆]
      simp [List.append_assoc]

end

/-! ## Normal forms -/

theorem not_blank_of_finalMark {c : Char} (h : isFinalMark c = true) : isBlank c = false := by
  simp only [isFinalMark, Bool.or_eq_true, beq_iff_eq] at h
  rcases h with (rfl | rfl) | rfl <;> rfl

section

variable {lead s marks : List Char}

theorem normalized_unnumbered (htrim : trimmed s = s) (hnumber : ¬StartsNumbered s) :
    normalized s = trimmed (dropEndWhile isFinalMark s) := by
  have hs : ∀ c ∈ s.head?, isBlank c = false := fun c hc => not_blank_of_head_trimmed (htrim ▸ hc)
  have hnone : Form.numbering.match? s = none := by
    cases hmatch : Form.numbering.match? s with
    | none => rfl
    | some f => exact absurd (exists_numbering_of_match? hmatch hs) hnumber
  simp only [normalized, htrim, hnone]

/-- A number before a sentence and marks after it do not change its normal form. -/
theorem normalized_numbered (hlead : IsNumbering lead) (hne : s ≠ []) (htrim : trimmed s = s)
    (hnumber : ¬StartsNumbered s) (hmarks : ∀ c ∈ marks, isFinalMark c = true) :
    normalized (lead ++ s ++ marks) = normalized s := by
  have hs : ∀ c ∈ (s ++ marks).head?, isBlank c = false := by
    intro c hc
    rw [List.head?_append_of_ne_nil _ hne] at hc
    exact not_blank_of_head_trimmed (htrim ▸ hc)
  have hlast : ∀ c ∈ (lead ++ s ++ marks).getLast?, isBlank c = false := by
    intro c hc
    rcases List.eq_nil_or_concat marks with rfl | ⟨marks, d, rfl⟩
    · rw [List.append_nil, List.getLast?_append_of_ne_nil _ hne] at hc
      exact not_blank_of_last_trimmed (htrim ▸ hc)
    · obtain rfl : d = c := by simpa using hc
      exact not_blank_of_finalMark (hmarks d (by simp))
  rw [List.append_assoc] at hlast ⊢
  obtain ⟨f, hf, hstop⟩ := match?_numbering hlead hs
  have hwhole : trimmed (lead ++ (s ++ marks)) = lead ++ (s ++ marks) :=
    trimmed_eq_self (hlead.first_not_blank _) hlast
  calc normalized (lead ++ (s ++ marks))
      = trimmed (dropEndWhile isFinalMark (s ++ marks)) := by
        simp only [normalized, hwhole, hf, hstop]
    _ = trimmed (dropEndWhile isFinalMark s) := by rw [dropEndWhile_append s hmarks]
    _ = normalized s := (normalized_unnumbered htrim hnumber).symm

end

/-! ## Classification -/

/-- Two sentences of one normal form ask for the same, whatever the limit on nesting. -/
theorem classifyWith_alike (usual : Number.Binary64) (inner : Option (List Char → Action))
    {text text' : List Char} (h : normalized text = normalized text') :
    (classifyWith usual inner text).Alike (classifyWith usual inner text') := by
  unfold classifyWith
  rw [h]
  by_cases hempty : (normalized text').isEmpty = true
  · simp only [if_pos hempty]
    exact .unknown _ _
  · simp only [if_neg hempty]
    cases store? (normalized text') with
    | some action => exact .same action
    | none =>
      cases Form.conditional.match? (normalized text') with
      | some f => exact .same _
      | none =>
        cases plainAction? usual (normalized text') with
        | some action => exact .same action
        | none => exact .unknown _ _

theorem classify_alike (rules : Rules) {text text' : String}
    (h : normalized text.toList = normalized text'.toList) :
    (classify rules text).Alike (classify rules text') := by
  unfold classify
  cases rules.maxDepth with
  | zero => exact classifyWith_alike _ none h
  | succ depth => exact classifyWith_alike _ (some _) h

/-- A number in a list before a sentence and marks after it change neither its normal form nor the
action it asks for. Only an unknown action keeps them in its text. -/
theorem classify_numbered (rules : Rules) {lead sentence marks : String}
    (hlead : IsNumbering lead.toList) (hne : sentence ≠ "") (htrim : trim sentence = sentence)
    (hnumber : ¬StartsNumbered sentence.toList) (hmarks : ∀ c ∈ marks.toList, isFinalMark c = true) :
    normalize (lead ++ sentence ++ marks) = normalize sentence ∧
      (classify rules (lead ++ sentence ++ marks)).Alike (classify rules sentence) := by
  have hnormal : normalized (lead ++ sentence ++ marks).toList = normalized sentence.toList := by
    rw [String.toList_append, String.toList_append]
    exact normalized_numbered hlead (fun hnil => hne (String.toList_eq_nil_iff.mp hnil))
      (by rw [← toList_trim, htrim]) hnumber hmarks
  exact ⟨by rw [normalize, normalize, hnormal], classify_alike rules hnormal⟩

theorem classify_numbered_step :
    let rules : Rules := { maxDepth := 8, usualPause := ⟨0⟩ }
    let sentence := "if \"Total: 3. sum\" exists, press \"1) Save\" . ;"
    IsNumbering "Step 12) ".toList ∧ sentence ≠ "" ∧ trim sentence = sentence ∧
      ¬StartsNumbered sentence.toList ∧ (∀ c ∈ "!.;".toList, isFinalMark c = true) ∧
      normalize ("Step 12) " ++ sentence ++ "!.;") = normalize sentence ∧
      (classify rules ("Step 12) " ++ sentence ++ "!.;")).Alike (classify rules sentence) := by
  intro rules sentence
  have hstep : IsStepWord ("Step".toList ++ [' ']) := .some rfl (List.all_eq_true.mp rfl)
  have hlead : IsNumbering (("Step".toList ++ [' ']) ++ ((toString 12).toList ++ [')', ' '])) :=
    isNumbering_toString hstep 12 (by decide) ⟨List.cons_ne_nil _ _, List.all_eq_true.mp rfl⟩
  have hne : sentence ≠ "" := by decide
  have htrim : trim sentence = sentence := by decide
  have hnumber : ¬StartsNumbered sentence.toList := by
    rintro ⟨lead, rest, hs, h⟩
    obtain ⟨c, t, rfl, hc⟩ := h.exists_first
    have hfirst : sentence.toList.head? = some 'i' := by decide
    rw [hs] at hfirst
    obtain rfl : c = 'i' := Option.some.inj hfirst
    revert hc
    decide
  have hmarks : ∀ c ∈ "!.;".toList, isFinalMark c = true := List.all_eq_true.mp rfl
  exact ⟨hlead, hne, htrim, hnumber, hmarks, classify_numbered rules hlead hne htrim hnumber hmarks⟩

end Sentence

end PlainSteps
