import PlainSteps.Proofs.DecimalDigits
import PlainSteps.Proofs.ShortestDigits

/-!
# Doubles read from decimals

`Binary64.ofParts_signed`: the digits of a decimal that rounds to a double, cut anywhere into a whole part
and a fraction, are read as this double, and a sign before them as its sign.

* `digitsValue_bounds` : the number of digits of a decimal tells its size up to a factor of ten.
* `Binary64.ofDecimal_eq` : so a decimal that rounds to a double is not so large or so small that its
  size alone would decide.
* `Binary64.parts_spec` : a finite double is what its parts make of it.
-/

namespace PlainSteps.Number

open Text

/-! ## The size of a run of digits -/

theorem digit_lt {c : Char} (hc : isAsciiDigit c = true) : c.toNat - '0'.toNat < 10 := by
  have hall := all_digits (p := fun c => decide (c.toNat - '0'.toNat < 10)) (by decide) hc
  simpa using hall

theorem digitsFrom_bounds {s : List Char} (hs : ∀ c ∈ s, isAsciiDigit c = true) (n : Nat) :
    n * 10 ^ s.length ≤ digitsFrom n s ∧ digitsFrom n s < (n + 1) * 10 ^ s.length := by
  induction s generalizing n with
  | nil => simp [digitsFrom_nil]
  | cons c s ih =>
    obtain ⟨hc, hs⟩ := List.forall_mem_cons.mp hs
    obtain ⟨hlow, hhigh⟩ := ih hs (10 * n + (c.toNat - '0'.toNat))
    have hdigit := digit_lt hc
    rw [digitsFrom_cons, List.length_cons, Nat.pow_succ]
    constructor
    · calc n * (10 ^ s.length * 10) = (10 * n) * 10 ^ s.length := by ring
        _ ≤ (10 * n + (c.toNat - '0'.toNat)) * 10 ^ s.length := Nat.mul_le_mul_right _ (by omega)
        _ ≤ _ := hlow
    · calc digitsFrom (10 * n + (c.toNat - '0'.toNat)) s
          < (10 * n + (c.toNat - '0'.toNat) + 1) * 10 ^ s.length := hhigh
        _ ≤ (10 * (n + 1)) * 10 ^ s.length := Nat.mul_le_mul_right _ (by omega)
        _ = (n + 1) * (10 ^ s.length * 10) := by ring

theorem digitsValue_bounds {c : Char} {s : List Char} (hs : ∀ d ∈ c :: s, isAsciiDigit d = true)
    (hc : c ≠ '0') : 10 ^ s.length ≤ digitsValue (c :: s) ∧ digitsValue (c :: s) < 10 ^ (s.length + 1) := by
  obtain ⟨hdigit, hs⟩ := List.forall_mem_cons.mp hs
  have hlt := digit_lt hdigit
  have hpos : 1 ≤ c.toNat - '0'.toNat := by
    have hall := all_digits (p := fun c => c == '0' || decide (1 ≤ c.toNat - '0'.toNat)) (by decide) hdigit
    simpa [hc] using hall
  obtain ⟨hlow, hhigh⟩ := digitsFrom_bounds hs (c.toNat - '0'.toNat)
  rw [digitsValue, digitsFrom_cons, Nat.mul_zero, Nat.zero_add]
  constructor
  · exact (Nat.le_mul_of_pos_left _ hpos).trans hlow
  · rw [Nat.pow_succ, Nat.mul_comm _ 10]
    exact hhigh.trans_le (Nat.mul_le_mul_right _ (by omega))

theorem digitsValue_dropWhile (s : List Char) :
    digitsValue (s.dropWhile (· == '0')) = digitsValue s := by
  induction s with
  | nil => rfl
  | cons c s ih =>
    by_cases hc : c = '0'
    · subst hc
      rw [List.dropWhile_cons_of_pos (by rfl), ih]
      rfl
    · rw [List.dropWhile_cons_of_neg (by simpa using hc)]

/-! ## The nearest double -/

namespace Binary64

variable {m : Nat} {e : Int}

theorem two_pow_le_ten_pow (k : Nat) : (2 : ℚ) ^ (3 * k : Int) ≤ 10 ^ (k : Int) := by
  rw [zpow_mul, zpow_natCast, zpow_natCast]
  exact pow_le_pow_left₀ (by norm_num) (by norm_num) k

theorem ten_pow_le_two_pow (k : Nat) : (10 : ℚ) ^ (-k : Int) ≤ 2 ^ (-(3 * k) : Int) := by
  rw [zpow_neg, zpow_neg]
  exact inv_anti₀ (pow_two_pos _) (two_pow_le_ten_pow k)

theorem bounds_of_roundsTo (hm : IsDouble m e) {x : ℚ} (h : RoundsTo m e x) :
    2 ^ (-1200 : Int) < x ∧ x < 2 ^ (1200 : Int) := by
  have hpos := pow_two_pos e
  constructor
  · calc (2 : ℚ) ^ (-1200 : Int) < 2 ^ (e - 1) := pow_two_lt_iff.mpr (by have := hm.low; omega)
      _ ≤ (m - halfBelow m e) * 2 ^ e := by
        have hone : (1 : ℚ) ≤ m := by exact_mod_cast hm.pos
        have hhalf := halfBelow_le m e
        rw [zpow_sub_one₀ (by norm_num)]
        nlinarith
      _ ≤ x := h.low
  · calc x ≤ (m + 1 / 2) * 2 ^ e := h.high
      _ ≤ 2 ^ (53 + e) := by
        have hle : (m : ℚ) + 1 ≤ 2 ^ 53 := by exact_mod_cast hm.lt
        have hsplit : (2 : ℚ) ^ (53 + e) = 2 ^ 53 * 2 ^ e := pow_two_mul 53 e
        rw [hsplit]
        exact mul_le_mul_of_nonneg_right (by linarith) hpos.le
      _ < 2 ^ (1200 : Int) := pow_two_lt_iff.mpr (by have := hm.high; omega)

theorem bounds_of_digits {digits count : Nat} (hcount : 0 < count) (hlow : 10 ^ (count - 1) ≤ digits)
    (hhigh : digits < 10 ^ count) (exponent : Int) :
    (10 : ℚ) ^ (count - 1 + exponent) ≤ digits * 10 ^ exponent ∧
      (digits * 10 ^ exponent : ℚ) < 10 ^ (count + exponent) := by
  have hpow := pow_ten_pos exponent
  constructor
  · have hcast : (10 : ℚ) ^ ((count : Int) - 1) ≤ digits := by
      have hsub : (count : Int) - 1 = ((count - 1 : Nat) : Int) := by omega
      rw [hsub, zpow_natCast]
      exact_mod_cast hlow
    rw [zpow_add₀ (by norm_num)]
    exact mul_le_mul_of_nonneg_right hcast hpow.le
  · have hcast : (digits : ℚ) < 10 ^ count := by exact_mod_cast hhigh
    rw [zpow_add₀ (by norm_num), zpow_natCast]
    exact mul_lt_mul_of_pos_right hcast hpow

theorem ofDecimal_eq (hm : IsDouble m e) {digits count : Nat} {exponent : Int}
    (hlow : 10 ^ (count - 1) ≤ digits) (hhigh : digits < 10 ^ count)
    (h : RoundsTo m e (digits * 10 ^ exponent)) :
    ofDecimal digits count exponent = ⟨UInt64.ofNat (bitsOf m e)⟩ := by
  have hcount : 0 < count := by
    rcases Nat.eq_zero_or_pos count with rfl | hpos
    · omega
    · exact hpos
  obtain ⟨hmin, hmax⟩ := bounds_of_roundsTo hm h
  obtain ⟨hleast, hgreatest⟩ := bounds_of_digits hcount hlow hhigh exponent
  -- no double is as large as 10 ^ 400 or as small as its inverse, so neither of the two shortcuts is taken
  have hlarge : ¬400 < exponent + count := by
    intro hlt
    have hle : (2 : ℚ) ^ (1200 : Int) ≤ digits * 10 ^ exponent := calc
      (2 : ℚ) ^ (1200 : Int) ≤ 10 ^ (400 : Int) := two_pow_le_ten_pow 400
      _ ≤ 10 ^ ((count : Int) - 1 + exponent) := zpow_le_zpow_right₀ (by norm_num) (by omega)
      _ ≤ digits * 10 ^ exponent := hleast
    exact absurd hle (not_le.mpr hmax)
  have hsmall : ¬exponent + count < -400 := by
    intro hlt
    have hle : (digits * 10 ^ exponent : ℚ) ≤ 2 ^ (-1200 : Int) := calc
      (digits * 10 ^ exponent : ℚ) ≤ 10 ^ ((count : Int) + exponent) := hgreatest.le
      _ ≤ 10 ^ (-400 : Int) := zpow_le_zpow_right₀ (by norm_num) (by omega)
      _ ≤ 2 ^ (-1200 : Int) := ten_pow_le_two_pow 400
    exact absurd hle (not_le.mpr hmin)
  have hdigits : digits ≠ 0 := by
    have := Nat.pow_pos (n := count - 1) (by decide : 0 < 10)
    omega
  rw [ofDecimal, if_neg hdigits, if_neg hlarge, if_neg hsmall]
  split
  case isTrue hsign =>
    obtain ⟨k, rfl⟩ := Int.eq_ofNat_of_zero_le hsign
    have hround : RoundsTo m e (((digits * Nat.pow 10 k : Nat) : ℚ) / (1 : Nat)) := by
      simpa using h
    rw [nearest, Int.toNat_natCast, nearestBits_eq hm Nat.one_pos hround]
  case isFalse hsign =>
    obtain ⟨k, hk⟩ := Int.eq_ofNat_of_zero_le (by omega : 0 ≤ -exponent)
    obtain rfl : exponent = -(k : Int) := by omega
    have hround : RoundsTo m e ((digits : ℚ) / (Nat.pow 10 k : Nat)) := by
      simpa [div_eq_mul_inv] using h
    have hden : 0 < Nat.pow 10 k := Nat.pow_pos (by decide)
    rw [nearest, neg_neg, Int.toNat_natCast, nearestBits_eq hm hden hround]

theorem ofParts_eq (hm : IsDouble m e) {whole fraction : List Char} {exponent : Int}
    (hdigits : ∀ c ∈ whole ++ fraction, isAsciiDigit c = true)
    (h : RoundsTo m e (digitsValue (whole ++ fraction) * 10 ^ (exponent - fraction.length))) :
    ofParts whole fraction exponent = ⟨UInt64.ofNat (bitsOf m e)⟩ := by
  have hkept : ∀ c ∈ (whole ++ fraction).dropWhile (· == '0'), isAsciiDigit c = true := fun c hc =>
    hdigits c ((List.dropWhile_sublist _).subset hc)
  have hhead := List.head?_dropWhile_not (· == '0') (whole ++ fraction)
  rw [← digitsValue_dropWhile] at h
  unfold ofParts
  dsimp only
  generalize (whole ++ fraction).dropWhile (· == '0') = digits at *
  cases digits with
  | nil =>
    have hpos := h.pos hm
    simp [digitsValue, digitsFrom_nil] at hpos
  | cons c s =>
    have hc : c ≠ '0' := by simpa using hhead
    obtain ⟨hlow, hhigh⟩ := digitsValue_bounds hkept hc
    exact ofDecimal_eq hm hlow hhigh h

theorem ofParts_zero {whole fraction : List Char} (h : digitsValue (whole ++ fraction) = 0) (exponent : Int) :
    ofParts whole fraction exponent = ⟨0⟩ := by
  unfold ofParts
  dsimp only
  rw [digitsValue_dropWhile, h, ofDecimal, if_pos rfl]
  rfl

/-! ## Signs -/

/-- The bit of the sign. -/
def signBit (negative : Bool) : Nat := if negative then 2 ^ 63 else 0

theorem xor_signBit {b : Nat} (hb : b < 2 ^ 63) : b ^^^ 2 ^ 63 = 2 ^ 63 + b := by
  have hor := Nat.two_pow_add_eq_or_of_lt hb 1
  rw [Nat.mul_one] at hor
  rw [hor]
  apply Nat.eq_of_testBit_eq
  intro j
  rw [Nat.testBit_xor, Nat.testBit_or, Nat.testBit_two_pow]
  by_cases hj : 63 = j
  · subst hj
    simp [Nat.testBit_lt_two_pow hb]
  · simp [hj]

theorem toNat_signed {b : Nat} (hb : b < 2 ^ 63) (negative : Bool) :
    (signed negative ⟨UInt64.ofNat b⟩).bits.toNat = signBit negative + b := by
  have hbits : (UInt64.ofNat b).toNat = b := UInt64.toNat_ofNat_of_lt' (by simp [UInt64.size]; omega)
  cases negative with
  | false => simp [signed, signBit, hbits]
  | true =>
    have hsign : (0x8000000000000000 : UInt64).toNat = 2 ^ 63 := by rfl
    rw [signed, if_pos rfl, negate, UInt64.toNat_xor, hbits, hsign, xor_signBit hb]
    rfl

theorem signed_eq {b : Nat} (hb : b < 2 ^ 63) {negative : Bool} {x : Binary64}
    (hx : x.bits.toNat = signBit negative + b) : signed negative ⟨UInt64.ofNat b⟩ = x := by
  have hbits : (signed negative ⟨UInt64.ofNat b⟩).bits = x.bits :=
    UInt64.toNat_inj.mp ((toNat_signed hb negative).trans hx.symm)
  obtain ⟨bits⟩ := x
  exact congrArg Binary64.mk hbits

theorem bitsOf_lt (hm : IsDouble m e) : bitsOf m e < 2 ^ 63 := by
  have hlow := hm.low
  have hhigh := hm.high
  have hlt := hm.lt
  unfold bitsOf
  split <;> omega

theorem parts_spec {x : Binary64} {p : Parts} (h : x.parts? = some p) :
    (p.mantissa = 0 ∧ x.bits.toNat = signBit p.negative) ∨
      (IsDouble p.mantissa p.exponent ∧
        x.bits.toNat = signBit p.negative + bitsOf p.mantissa p.exponent) := by
  have hsize := x.bits.toNat_lt
  have hsign : signBit x.isNegative + x.bits.toNat % 2 ^ 63 = x.bits.toNat := by
    unfold signBit isNegative
    simp only [Nat.pow_eq, decide_eq_true_eq]
    split <;> omega
  unfold parts? exponentField fractionField at h
  simp only [Nat.pow_eq, beq_iff_eq] at h
  -- from here on the bits are a number, and the fields are its quotients and remainders
  generalize x.bits.toNat = bits at *
  rw [← hsign]
  split at h
  case isTrue => cases h
  case isFalse hfinite =>
    split at h
    case isTrue hfield =>
      obtain rfl := Option.some.inj h
      by_cases hzero : bits % 2 ^ 52 = 0
      · exact .inl ⟨hzero, by dsimp only; omega⟩
      · refine .inr ⟨⟨Nat.pos_of_ne_zero hzero, by dsimp only; omega, le_rfl, by dsimp only; omega,
          .inl rfl⟩, ?_⟩
        unfold bitsOf
        dsimp only
        rw [if_pos (by omega)]
        omega
    case isFalse hfield =>
      obtain rfl := Option.some.inj h
      refine .inr ⟨⟨?_, ?_, ?_, ?_, ?_⟩, ?_⟩
      all_goals dsimp only
      · omega
      · omega
      · omega
      · omega
      · exact .inr (by omega)
      · unfold bitsOf
        rw [if_neg (by omega)]
        omega

theorem isInfinite_eq_false {x : Binary64} {p : Parts} (h : x.parts? = some p) : x.isInfinite = false := by
  unfold parts? at h
  split at h
  case isTrue => cases h
  case isFalse hfinite =>
    unfold isInfinite
    rw [Bool.eq_false_iff.mpr hfinite]
    rfl

/-- A decimal that rounds to a finite double, cut into a whole part and a fraction and with its sign before
it, is read as that double. -/
theorem ofParts_signed {x : Binary64} {p : Parts} (hx : x.parts? = some p) {whole fraction : List Char}
    {exponent : Int} (hdigits : ∀ c ∈ whole ++ fraction, isAsciiDigit c = true)
    (hzero : p.mantissa = 0 → digitsValue (whole ++ fraction) = 0)
    (h : p.mantissa ≠ 0 → RoundsTo p.mantissa p.exponent
      (digitsValue (whole ++ fraction) * 10 ^ (exponent - fraction.length))) :
    (ofParts whole fraction exponent).signed p.negative = x := by
  obtain ⟨hmantissa, hbits⟩ | ⟨hdouble, hbits⟩ := parts_spec hx
  · rw [ofParts_zero (hzero hmantissa)]
    exact signed_eq (b := 0) (by decide) hbits
  · rw [ofParts_eq hdouble hdigits (h hdouble.pos.ne')]
    exact signed_eq (bitsOf_lt hdouble) hbits

end Binary64

end PlainSteps.Number
