import PlainSteps.Proofs.Classification
import PlainSteps.Proofs.FormWays
import PlainSteps.Proofs.Quotation

/-!
# Checks of a quoted text

`Sentence.classify_check`: a check of a text between double quotes is a check of that text, as long as
the text is on one line; with a line feed in it the sentence has no form at all.

None of the forms before the check begins with its verb, so the text plays no part in them. The form
of a check takes all that follows the verb, and it is a text on one line. The last form that could
apply ends in one of the words about presence, and the sentence ends in a quotation mark.
-/

namespace PlainSteps.Sentence

open Pattern Form Text

/-- The verb of a check and the blank after it. -/
def verb : List Char := ['V', 'e', 'r', 'i', 'f', 'y', ' ']

/-- The sentence that checks a text. -/
def check (s : List Char) : List Char := verb ++ inQuotes s

variable (s : List Char)

theorem getLast?_check : (check s).getLast? = some '"' := by
  rw [check, List.getLast?_append, getLast?_inQuotes, Option.some_or]

theorem last_check {p : Char → Bool} (hp : p '"' = false) :
    ∀ c ∈ (check s).getLast?, p c = false := by
  intro c hc
  rw [getLast?_check] at hc
  obtain rfl : '"' = c := by simpa using hc
  exact hp

theorem head_check : ∀ c ∈ (check s).head?, isBlank c = false := by
  intro c hc
  obtain rfl : 'V' = c := by simpa [check, verb] using hc
  rfl

theorem trimmed_check : trimmed (check s) = check s :=
  trimmed_eq_self (head_check s) (last_check s rfl)

theorem normalized_check : normalized (check s) = check s :=
  normalized_eq_self rfl (head_check s) fun c hc => ⟨last_check s rfl c hc, last_check s rfl c hc⟩

/-! ## Forms with another verb -/

theorem store?_check : store? (check s) = none := store?_eq_none rfl

theorem conditional_check : Form.conditional.match? (check s) = none := rfl

theorem pageLoad?_check : pageLoad? (check s) = none := pageLoad?_eq_none rfl

theorem duration_check : Form.duration.match? (check s) = none := rfl

theorem waitFor?_check : waitFor? (check s) = none := waitFor?_eq_none rfl rfl

theorem click?_check : click? (check s) = none := by
  have h : Form.click.match? (check s) = none := rfl
  rw [click?, h]
  rfl

theorem fill?_check : fill? (check s) = none := by
  have h : Form.fill.match? (check s) = none := rfl
  rw [fill?, h]
  rfl

theorem navigate?_check : navigate? (check s) = none := by
  have h : Form.navigate.match? (check s) = none := rfl
  rw [navigate?, h]
  rfl

theorem pause?_check (usual : Number.Binary64) : pause? usual (check s) = none := by
  have h : Form.bareWait.match? (check s) = none := rfl
  rw [pause?, duration_check]
  simp only [matches?, h]
  rfl

/-! ## The forms of a check -/

theorem ways_verb : (chain [blanks,
      oneOf ["verify", "check", "assert", "expect", "ensure", "confirm", "validate"],
      optional (both gap (word "that")), gap]).ways (Place.start (check s)) [] =
    [(⟨verb.reverse, inQuotes s⟩, [])] := rfl

theorem match?_verify (hline : (inQuotes s).all onLine = true) :
    ∃ f, Form.verify.match? (check s) = some f ∧ f.part .target = inQuotes s :=
  match?_toEnd .target (ways_verb s) (List.cons_ne_nil _ _) hline

theorem match?_verify_eq_none (hline : ¬(inQuotes s).all onLine = true) :
    Form.verify.match? (check s) = none :=
  match?_toEnd_eq_none .target (ways_verb s) (List.cons_ne_nil _ _) hline

theorem shouldSee_check : Form.shouldSee.match? (check s) = none := rfl

theorem shouldBe_check : Form.shouldBe.match? (check s) = none := by
  refine match?_eq_none fun r hr => ?_
  have hform : Form.shouldBe = chain ([blanks, part .target shortText, gap, word "should", gap,
      leading (word "be")] ++
    [oneOf ["visible", "displayed", "shown", "present", "appear", "exist"], blanks, textEnd]) := rfl
  rw [hform] at hr
  have htext : (Place.start (check s)).text = (verb ++ '"' :: s) ++ ['"'] := by
    simp [check, inQuotes]
  obtain ⟨w, hw, hlast⟩ := ends_in_word (by simp) (by decide) rfl htext hr
  have hne : ∀ w ∈ ["visible", "displayed", "shown", "present", "appear", "exist"],
      w.toList.getLast? ≠ some (foldCase '"') := by decide
  exact hne w hw hlast

theorem all_onLine_inQuotes : (inQuotes s).all onLine = true ↔ '\n' ∉ s := by
  have hall : (inQuotes s).all onLine = s.all onLine := by simp [inQuotes, onLine]
  rw [hall, List.all_eq_true]
  constructor
  · intro h hs
    exact absurd (h '\n' hs) (by decide)
  · intro h c hc
    rw [onLine, bne_iff_ne]
    rintro rfl
    exact h hc

theorem verify?_check : verify? (check s) =
    if '\n' ∈ s then none else some (.verify (operand (inQuotes s))) := by
  by_cases hs : '\n' ∈ s
  · have hverify : Form.verify.match? (check s) = none :=
      match?_verify_eq_none s fun h => (all_onLine_inQuotes s).mp h hs
    rw [if_pos hs, verify?]
    simp only [List.findSome?_cons, List.findSome?_nil, hverify, shouldSee_check, shouldBe_check]
    rfl
  · obtain ⟨f, hf, htarget⟩ := match?_verify s ((all_onLine_inQuotes s).mpr hs)
    have hne : ¬(inQuotes s).isEmpty = true := by simp [inQuotes]
    rw [if_neg hs, verify?]
    simp only [List.findSome?_cons, hf, Option.bind_eq_bind, Option.bind_some, htarget,
      trimmed_inQuotes, isQuotation_inQuotes, if_true, if_neg hne]

/-! ## Classification -/

theorem plainAction?_check (usual : Number.Binary64) :
    plainAction? usual (check s) = verify? (check s) := by
  simp only [plainAction?, List.findSome?_cons, List.findSome?_nil, pageLoad?_check, waitFor?_check,
    click?_check, fill?_check, navigate?_check, pause?_check]
  cases verify? (check s) <;> rfl

/-- A check of a quoted text is a check of that text, unless there is a line feed in it. -/
theorem classify_check (rules : Rules) : classify rules (String.ofList (check s)) =
    if '\n' ∈ s then .unknown (String.ofList (check s)) else .verify (operand (inQuotes s)) := by
  have hne : ¬(check s).isEmpty = true := by simp [check, inQuotes]
  refine classify_of_classifyWith fun inner => ?_
  simp only [classifyWith, normalized_check, if_neg hne, store?_check, conditional_check,
    plainAction?_check, verify?_check, trimmed_check]
  by_cases hs : '\n' ∈ s <;> simp [hs]

end PlainSteps.Sentence
