import PlainSteps.Locator
import PlainSteps.Proofs.Trimming
import PlainSteps.Sentence.Operand

/-!
# Operands between quotation marks

A text between quotation marks is taken as it stands, whatever it holds:

* `Sentence.operand_of_marks` : as an operand it names what it says, unless that is a locator.
* `StopWords.sanitize_inQuotes` : as a hint it loses its marks and nothing else.
-/

namespace PlainSteps

open Text

theorem betweenMarks?_eq_none {s : List Char} (h : ∀ c ∈ s.head?, isQuoteMark c = false) :
    betweenMarks? s = none := by
  cases s with
  | nil => rfl
  | cons c s =>
    simp only [betweenMarks?, h c rfl, Bool.false_and, Bool.false_eq_true, if_false]
    split <;> rfl

theorem not_blank_of_mark {c : Char} (h : isQuoteMark c = true) : isBlank c = false := by
  simp only [isQuoteMark, Bool.or_eq_true, beq_iff_eq] at h
  rcases h with ((((rfl | rfl) | rfl) | rfl) | rfl) | rfl <;> rfl

section

variable {opening closing : Char} (hopening : isQuoteMark opening = true)
  (hclosing : isQuoteMark closing = true) (s : List Char)

include hopening hclosing

theorem trimmed_of_marks :
    trimmed (opening :: (s ++ [closing])) = opening :: (s ++ [closing]) := by
  refine trimmed_eq_self ?_ ?_
  · intro c hc
    obtain rfl : opening = c := by simpa using hc
    exact not_blank_of_mark hopening
  · intro c hc
    rw [← List.cons_append, List.getLast?_concat] at hc
    obtain rfl : closing = c := by simpa using hc
    exact not_blank_of_mark hclosing

theorem unquoted_of_marks : unquoted (opening :: (s ++ [closing])) = trimmed s := by
  have hmarks : betweenMarks? (opening :: (s ++ [closing])) = some s := by
    simp [betweenMarks?, hopening, hclosing]
  rw [unquoted, trimmed_of_marks hopening hclosing, hmarks]

theorem Target.ofChars_of_marks (h : locatorEngine? (trimmed s) = none) :
    ofChars (opening :: (s ++ [closing])) =
      .implied (String.ofList (opening :: (s ++ [closing]))) := by
  rw [ofChars, unquoted_of_marks hopening hclosing, trimmed_of_marks hopening hclosing, h]

end

/-- A text between double quotes. -/
def inQuotes (s : List Char) : List Char := '"' :: (s ++ ['"'])

variable (s : List Char)

theorem getLast?_inQuotes : (inQuotes s).getLast? = some '"' := by
  rw [inQuotes, ← List.cons_append, List.getLast?_concat]

@[simp] theorem trimmed_inQuotes : trimmed (inQuotes s) = inQuotes s :=
  trimmed_of_marks rfl rfl s

@[simp] theorem unquoted_inQuotes : unquoted (inQuotes s) = trimmed s :=
  unquoted_of_marks rfl rfl s

namespace Sentence

/-- The marks that open a quotation, each with the mark that closes it. -/
def markPairs : List (Char × Char) := [('"', '"'), ('\'', '\''), ('“', '”'), ('‘', '’')]

theorem closingMark?_eq_some_iff {opening closing : Char} :
    closingMark? opening = some closing ↔ (opening, closing) ∈ markPairs := by
  constructor
  · intro h
    simp only [closingMark?] at h
    split at h
    · rename_i hopening
      obtain rfl := Option.some.inj h
      rcases hopening with rfl | rfl <;> decide
    · split at h
      · cases h
        subst opening
        decide
      · split at h
        · cases h
          subst opening
          decide
        · cases h
  · have hall : ∀ m ∈ markPairs, closingMark? m.1 = some m.2 := by decide
    exact hall _

theorem marks_of_closingMark {opening closing : Char} (h : closingMark? opening = some closing) :
    isQuoteMark opening = true ∧ isQuoteMark closing = true := by
  have hall : ∀ m ∈ markPairs, isQuoteMark m.1 = true ∧ isQuoteMark m.2 = true := by decide
  exact hall _ (closingMark?_eq_some_iff.mp h)

section

variable {opening closing : Char} (hmark : closingMark? opening = some closing)

include hmark

/-- The marks around a text are the outermost, whatever marks the text holds. -/
theorem isQuotation_of_marks : isQuotation (opening :: (s ++ [closing])) = true := by
  have hspan : quotedSpan? (opening :: (s ++ [closing])) = some (opening :: (s ++ [closing])) := by
    have hkept : dropEndWhile (· != closing) (s ++ [closing]) = s ++ [closing] :=
      dropEndWhile_append_of_not s (by simp)
    simp [quotedSpan?, hmark, throughLast?, hkept]
  simp [isQuotation, hspan]

theorem operand_of_marks (h : locatorEngine? (trimmed s) = none) :
    operand (opening :: (s ++ [closing])) =
      .implied (String.ofList (opening :: (s ++ [closing]))) := by
  obtain ⟨hopening, hclosing⟩ := marks_of_closingMark hmark
  rw [operand, trimmed_of_marks hopening hclosing, isQuotation_of_marks s hmark, Bool.or_true,
    if_pos rfl, Target.ofChars_of_marks hopening hclosing s h]

end

theorem isQuotation_inQuotes : isQuotation (inQuotes s) = true :=
  isQuotation_of_marks s rfl

theorem operand_inQuotes (h : locatorEngine? (trimmed s) = none) :
    operand (inQuotes s) = .implied (String.ofList (inQuotes s)) :=
  operand_of_marks s rfl h

end Sentence

theorem utf8ByteSize_trimmed_lt :
    (String.ofList (trimmed s)).utf8ByteSize < (String.ofList (inQuotes s)).utf8ByteSize := by
  obtain ⟨before, after, hs⟩ := infix_trimmed s
  have hquoted : inQuotes s = ['"'] ++ (before ++ trimmed s ++ after) ++ ['"'] := by
    rw [hs]
    rfl
  have hmark : (String.ofList ['"']).utf8ByteSize = 1 := by decide
  rw [hquoted]
  simp only [String.ofList_append, String.utf8ByteSize_append, hmark]
  omega

theorem StopWords.sanitize_inQuotes (w : StopWords) (kind : ActionKind) :
    w.sanitize (String.ofList (inQuotes s)) kind = String.ofList (trimmed s) := by
  have htext : unquote (String.ofList (inQuotes s)) = String.ofList (trimmed s) := by
    rw [unquote, String.toList_ofList, unquoted_inQuotes]
  have htrim : trim (String.ofList (inQuotes s)) = String.ofList (inQuotes s) := by
    rw [trim, String.toList_ofList, trimmed_inQuotes]
  have hsize := Nat.ne_of_lt (utf8ByteSize_trimmed_lt s)
  rw [sanitize, htext, htrim, if_pos (bne_iff_ne.mpr hsize)]

end PlainSteps
