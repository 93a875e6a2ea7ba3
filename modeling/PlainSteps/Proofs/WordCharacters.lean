import Mathlib.Data.List.Chain
import PlainSteps.Proofs.SubstitutedStore

/-!
# Characters of words

Where a word ends depends on the characters that words are made of. Decimal digits of every script are
among them (`isWordChar_of_isDigit`), and so is whatever counts as a letter from a to z
(`isWordChar_of_foldCase`); blanks are not (`not_wordChar_of_blank`).

The digits are compared with the words span by span: a set of code points is a list of spans
(`CodeSet.exists_span`, `CodeSet.within_of_span`), and each span of digits lies in a span of words.
-/

namespace PlainSteps.Text

namespace CodeSet

/-- The spans of a set, each from its first code point to the one after its last. -/
def spans : List Nat → List (Nat × Nat)
  | b :: b' :: bs => (b, b') :: spans bs
  | _ => []

theorem exists_span {bs : List Nat} {n : Nat} (heven : bs.length % 2 = 0)
    (h : within bs n = true) : ∃ p ∈ spans bs, p.1 ≤ n ∧ n < p.2 := by
  match bs with
  | [] => cases h
  | [_] => cases heven
  | b :: b' :: bs =>
    by_cases hb : n < b
    · rw [within_of_lt _ hb] at h
      cases h
    · rw [within_of_le _ (Nat.le_of_not_lt hb)] at h
      by_cases hb' : n < b'
      · exact ⟨(b, b'), List.mem_cons_self, Nat.le_of_not_lt hb, hb'⟩
      · rw [within_of_le _ (Nat.le_of_not_lt hb'), Bool.not_not] at h
        have hrest : bs.length % 2 = 0 := by
          simp only [List.length_cons] at heven
          omega
        obtain ⟨p, hp, hspan⟩ := exists_span hrest h
        exact ⟨p, List.mem_cons_of_mem _ hp, hspan⟩

theorem le_of_mem_spans {b : Nat} {bs : List Nat} (hsorted : (b :: bs).IsChain (· < ·))
    {p : Nat × Nat} (hp : p ∈ spans bs) : b < p.1 := by
  match bs with
  | [] | [_] => cases hp
  | c :: c' :: bs =>
    rw [List.isChain_cons_cons, List.isChain_cons_cons] at hsorted
    rcases List.mem_cons.mp hp with rfl | hp
    · exact hsorted.1
    · have hlater := le_of_mem_spans hsorted.2.2 hp
      omega

theorem within_of_span {bs : List Nat} (hsorted : bs.IsChain (· < ·)) {p : Nat × Nat}
    (hp : p ∈ spans bs) {n : Nat} (hn : p.1 ≤ n ∧ n < p.2) : within bs n = true := by
  match bs with
  | [] | [_] => cases hp
  | b :: b' :: bs =>
    rcases List.mem_cons.mp hp with rfl | hp
    · rw [within_of_le _ hn.1, within_of_lt _ hn.2]
      rfl
    · rw [List.isChain_cons_cons] at hsorted
      have hlater := le_of_mem_spans hsorted.2 hp
      rw [within_of_le _ (by omega), within_of_le _ (by omega), Bool.not_not]
      exact within_of_span hsorted.2.of_cons hp hn

end CodeSet

theorem wordChars_sorted : wordChars.changes.IsChain (· < ·) := by decide +kernel

theorem digits_within_words : ((CodeSet.spans digits.changes).all fun p =>
    (CodeSet.spans wordChars.changes).any fun q => q.1.ble p.1 && p.2.ble q.2) = true := by
  decide +kernel

theorem isWordChar_of_isDigit {c : Char} (h : isDigit c = true) : isWordChar c = true := by
  obtain ⟨p, hp, hspan⟩ := CodeSet.exists_span (by decide +kernel) h
  obtain ⟨q, hq, hle⟩ := List.any_eq_true.mp (List.all_eq_true.mp digits_within_words p hp)
  rw [Bool.and_eq_true, Nat.ble_eq, Nat.ble_eq] at hle
  exact CodeSet.within_of_span wordChars_sorted hq (by omega)

theorem word_spec_of_letter {c : Char} (h : isAsciiLetter c = true) :
    isWordChar c = true ∧ isDigit c = false :=
  forall_ascii (P := fun c => isAsciiLetter c = true → isWordChar c = true ∧ isDigit c = false)
    (by decide +kernel) (ascii_of_letter h) h

theorem isWordChar_of_letter {c : Char} (h : isAsciiLetter c = true) : isWordChar c = true :=
  (word_spec_of_letter h).1

theorem isWordChar_of_foldCase {c : Char} (h : isAsciiLetter (Sentence.Form.foldCase c) = true) :
    isWordChar c = true := by
  unfold Sentence.Form.foldCase at h
  split at h
  · rename_i hc
    exact isWordChar_of_letter (by simp [isAsciiLetter, hc.1, hc.2])
  · split at h
    · rename_i hc
      subst hc
      decide +kernel
    · split at h
      · rename_i hc
        subst hc
        decide +kernel
      · exact isWordChar_of_letter h

theorem not_wordChar_of_blank {c : Char} (h : isBlank c = true) : isWordChar c = false := by
  have hall : ∀ n ∈ List.range' 9 5 ++ [32, 0x85, 0xA0, 0x1680] ++ List.range' 0x2000 11 ++
      [0x2028, 0x2029, 0x202F, 0x205F, 0x3000], CodeSet.within wordChars.changes n = false := by
    decide +kernel
  refine hall c.toNat ?_
  simp only [isBlank, Bool.or_eq_true, Bool.and_eq_true, decide_eq_true_eq, beq_iff_eq] at h
  simp only [List.mem_append, List.mem_range'_1, List.mem_cons, List.not_mem_nil, or_false]
  omega

end PlainSteps.Text
