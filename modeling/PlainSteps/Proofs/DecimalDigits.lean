import PlainSteps.Number.Read
import PlainSteps.Timestamp

/-!
# Decimal digits

The text of a whole number is a run of digits whose value is that number (`Number.digitsValue_toDigits`),
without a zero before another digit (`Number.eq_zero_of_head_toDigits`). With zeros put before it up to a
width (`Timestamp.toList_padded`) it keeps its value, and has that width if the number fits
(`Timestamp.length_padded`).
-/

namespace PlainSteps

open Text

namespace Number

theorem digitsFrom_nil (n : Nat) : digitsFrom n [] = n := by rfl

theorem digitsFrom_cons (n : Nat) (c : Char) (s : List Char) :
    digitsFrom n (c :: s) = digitsFrom (10 * n + (c.toNat - '0'.toNat)) s := by rfl

theorem digitsFrom_eq (n : Nat) (s : List Char) : digitsFrom n s = Nat.ofDigitChars 10 s n := by
  induction s generalizing n with
  | nil => rw [digitsFrom_nil, Nat.ofDigitChars_nil]
  | cons c s ih => rw [digitsFrom_cons, ih, Nat.ofDigitChars_cons]

theorem toList_toString (n : Nat) : (toString n).toList = Nat.toDigits 10 n := by
  rw [Nat.toString_eq_ofList_toDigits, String.toList_ofList]

theorem digitsValue_toDigits (n : Nat) : digitsValue (Nat.toDigits 10 n) = n := by
  rw [digitsValue, digitsFrom_eq, Nat.ofDigitChars_ten_toDigits]

theorem digitsValue_zeros (k n : Nat) :
    digitsValue (List.replicate k '0' ++ Nat.toDigits 10 n) = n := by
  rw [digitsValue, digitsFrom_eq, Nat.ofDigitChars_append, Nat.ofDigitChars_replicate_zero,
    Nat.mul_zero, Nat.ofDigitChars_ten_toDigits]

theorem isAsciiDigit_of_mem_toDigits {n : Nat} {c : Char} (h : c ∈ Nat.toDigits 10 n) :
    isAsciiDigit c = true := by
  have hdigit := Nat.isDigit_of_mem_toDigits (by decide) (by decide) h
  simpa [isAsciiDigit, Char.isDigit, Char.le_def] using hdigit

theorem exists_digit (n : Nat) : ∃ c s, Nat.toDigits 10 n = c :: s ∧ isAsciiDigit c = true := by
  obtain ⟨c, s, hcs⟩ := List.exists_cons_of_ne_nil (Nat.toDigits_ne_nil (n := n) (b := 10))
  exact ⟨c, s, hcs, isAsciiDigit_of_mem_toDigits (hcs ▸ List.mem_cons_self)⟩

theorem eq_zero_of_head_toDigits {n : Nat} (h : (Nat.toDigits 10 n).head? = some '0') : n = 0 := by
  induction n using Nat.strongRecOn with
  | ind n ih =>
    by_cases hn : n < 10
    · have hall : ∀ m : Fin 10, (Nat.toDigits 10 m).head? = some '0' → m = 0 := by decide
      exact congrArg Fin.val (hall ⟨n, hn⟩ h)
    · have hge : 10 ≤ n := by omega
      have hne : Nat.toDigits 10 (n / 10) ≠ [] := Nat.toDigits_ne_nil
      obtain ⟨c, s, hcs⟩ := List.exists_cons_of_ne_nil hne
      rw [Nat.toDigits_of_base_le (by decide) hge, hcs, List.cons_append, List.head?_cons] at h
      have hzero := ih (n / 10) (by omega) (by rw [hcs, List.head?_cons, h])
      omega

theorem digit_cases {c : Char} (h : isAsciiDigit c = true) :
    c ∈ ['0', '1', '2', '3', '4', '5', '6', '7', '8', '9'] := by
  simp only [isAsciiDigit, Bool.and_eq_true, decide_eq_true_eq, Char.le_def,
    UInt32.le_iff_toNat_le] at h
  have h0 : '0'.val.toNat = 48 := rfl
  have h9 : '9'.val.toNat = 57 := rfl
  have hc : c = Char.ofNat c.val.toNat := (Char.ofNat_toNat c).symm
  have hall : ∀ k : Fin 10, Char.ofNat (48 + k) ∈ ['0', '1', '2', '3', '4', '5', '6', '7', '8', '9'] := by
    decide
  have hk := hall ⟨c.val.toNat - 48, by omega⟩
  rw [hc]
  have hsum : 48 + (c.val.toNat - 48) = c.val.toNat := by omega
  rwa [hsum] at hk

theorem all_digits {p : Char → Bool}
    (h : ['0', '1', '2', '3', '4', '5', '6', '7', '8', '9'].all p = true) {c : Char}
    (hc : isAsciiDigit c = true) : p c = true :=
  List.all_eq_true.mp h c (digit_cases hc)

end Number

namespace Timestamp

theorem toList_padded (width n : Nat) : (padded width n).toList =
    List.replicate (width - (Nat.toDigits 10 n).length) '0' ++ Nat.toDigits 10 n := by
  have hlength : (toString n).length = (Nat.toDigits 10 n).length := by
    rw [← String.length_toList, Number.toList_toString]
  rw [padded, String.toList_append, String.toList_ofList, Number.toList_toString, hlength]

theorem digitsValue_padded (width n : Nat) : Number.digitsValue (padded width n).toList = n := by
  rw [toList_padded, Number.digitsValue_zeros]

theorem isAsciiDigit_of_mem_padded {width n : Nat} {c : Char} (h : c ∈ (padded width n).toList) :
    isAsciiDigit c = true := by
  rw [toList_padded] at h
  rcases List.mem_append.mp h with h | h
  · obtain rfl := List.eq_of_mem_replicate h
    rfl
  · exact Number.isAsciiDigit_of_mem_toDigits h

theorem padded_ne_nil (width n : Nat) : (padded width n).toList ≠ [] := by
  rw [toList_padded]
  simp [Nat.toDigits_ne_nil]

theorem exists_digit_padded (width n : Nat) :
    ∃ c s, (padded width n).toList = c :: s ∧ isAsciiDigit c = true := by
  obtain ⟨c, s, hcs⟩ := List.exists_cons_of_ne_nil (padded_ne_nil width n)
  exact ⟨c, s, hcs, isAsciiDigit_of_mem_padded (hcs ▸ List.mem_cons_self)⟩

theorem length_padded {width n : Nat} (hwidth : 0 < width) (h : n < Nat.pow 10 width) :
    (padded width n).toList.length = width := by
  have hle := (Nat.length_toDigits_le_iff (by decide : 1 < 10) hwidth).mpr h
  rw [toList_padded, List.length_append, List.length_replicate]
  omega

end Timestamp

end PlainSteps
