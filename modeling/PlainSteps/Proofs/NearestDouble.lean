import Mathlib.Algebra.Order.Field.Power
import Mathlib.Data.Rat.Cast.Order
import Mathlib.Tactic.Linarith
import Mathlib.Tactic.NormNum
import Mathlib.Tactic.Positivity
import Mathlib.Tactic.Ring
import PlainSteps.Number.Shortest

/-!
# The double nearest to a quotient

`Binary64.nearestBits_eq`: a quotient that lies in the rounding interval of a positive double
(`RoundsTo`) has this double as the nearest one, bit for bit (`bitsOf`).

* `divNearest_eq` : the whole number nearest to a quotient, by the interval around it.
* `Binary64.size_spec` : the quotient lies between two neighbouring powers of two, which the sizes of its
  two parts tell up to one place.
* `Binary64.place_cases` : so its last place is that of the double, or the one below it if the quotient
  lies below a power of two that it rounds to. In both places the mantissa comes out as that of the
  double, in the second after a carry.
-/

namespace PlainSteps.Number

/-- The mantissa and the exponent of a positive double. -/
structure IsDouble (m : Nat) (e : Int) : Prop where
  pos : 0 < m
  lt : m < 2 ^ 53
  low : -1074 ≤ e
  high : e ≤ 971
  /-- Only in the lowest place a mantissa has fewer than 53 binary digits. -/
  full : e = -1074 ∨ 2 ^ 52 ≤ m

/-- Half the distance to the double below, as a part of the last place: the doubles below a power of two
lie closer together. -/
def halfBelow (m : Nat) (e : Int) : ℚ := if m = 2 ^ 52 ∧ -1074 < e then 1 / 4 else 1 / 2

/-- A number that rounds to `m * 2 ^ e`; the ends of the interval round to an even mantissa. -/
structure RoundsTo (m : Nat) (e : Int) (x : ℚ) : Prop where
  low : ((m : ℚ) - halfBelow m e) * 2 ^ e ≤ x
  high : x ≤ ((m : ℚ) + 1 / 2) * 2 ^ e
  odd : m % 2 = 1 → ((m : ℚ) - halfBelow m e) * 2 ^ e < x ∧ x < ((m : ℚ) + 1 / 2) * 2 ^ e

theorem halfBelow_le (m : Nat) (e : Int) : halfBelow m e ≤ 1 / 2 := by
  unfold halfBelow
  split <;> norm_num

theorem pow_two_pos (e : Int) : (0 : ℚ) < 2 ^ e := by positivity

theorem pow_two_succ (e : Int) : (2 : ℚ) ^ (e + 1) = 2 * 2 ^ e := by
  rw [zpow_add_one₀ (by norm_num), mul_comm]

theorem pow_two_lt_iff {a b : Int} : (2 : ℚ) ^ a < 2 ^ b ↔ a < b :=
  zpow_lt_zpow_iff_right₀ (by norm_num)

theorem pow_two_mul (k : Nat) (e : Int) : (2 : ℚ) ^ (k + e) = 2 ^ k * 2 ^ e := by
  rw [zpow_add₀ (by norm_num), zpow_natCast]

theorem RoundsTo.pos {m : Nat} {e : Int} {x : ℚ} (hm : IsDouble m e) (h : RoundsTo m e x) : 0 < x := by
  have hone : (1 : ℚ) ≤ m := by exact_mod_cast hm.pos
  have hhalf := halfBelow_le m e
  have hlow : 0 < ((m : ℚ) - halfBelow m e) * 2 ^ e := mul_pos (by linarith) (pow_two_pos e)
  exact lt_of_lt_of_le hlow h.low

/-! ## The nearest whole number -/

theorem divNearest_eq {n d k : Nat} (hd : 0 < d) (hlow : (k : ℚ) - 1 / 2 ≤ n / d)
    (hhigh : (n : ℚ) / d ≤ k + 1 / 2)
    (hodd : k % 2 = 1 → (k : ℚ) - 1 / 2 < n / d ∧ (n : ℚ) / d < k + 1 / 2) : divNearest n d = k := by
  have hd' : (0 : ℚ) < d := by exact_mod_cast hd
  -- without quotients: the distance from `d * k` to `n` is at most half of `d`
  have hlow' : 2 * (d * k) ≤ 2 * n + d := by
    rw [le_div_iff₀ hd'] at hlow
    have : (2 * (d * k) : ℚ) ≤ 2 * n + d := by linarith
    exact_mod_cast this
  have hhigh' : 2 * n ≤ 2 * (d * k) + d := by
    rw [div_le_iff₀ hd'] at hhigh
    have : (2 * n : ℚ) ≤ 2 * (d * k) + d := by linarith
    exact_mod_cast this
  have hodd' : k % 2 = 1 → 2 * (d * k) < 2 * n + d ∧ 2 * n < 2 * (d * k) + d := by
    intro hk
    obtain ⟨hl, hh⟩ := hodd hk
    rw [lt_div_iff₀ hd'] at hl
    rw [div_lt_iff₀ hd'] at hh
    have hl' : (2 * (d * k) : ℚ) < 2 * n + d := by linarith
    have hh' : (2 * n : ℚ) < 2 * (d * k) + d := by linarith
    exact ⟨by exact_mod_cast hl', by exact_mod_cast hh'⟩
  have hn := Nat.div_add_mod n d
  have hr := Nat.mod_lt n hd
  unfold divNearest
  generalize n / d = q at *
  generalize n % d = r at *
  have hle : q ≤ k := by
    have : d * q < d * (k + 1) := by
      rw [Nat.mul_add]
      omega
    exact Nat.lt_succ_iff.mp (Nat.lt_of_mul_lt_mul_left this)
  have hge : k ≤ q + 1 := by
    have : d * k < d * (q + 2) := by
      rw [Nat.mul_add]
      omega
    exact Nat.lt_succ_iff.mp (Nat.lt_of_mul_lt_mul_left this)
  obtain rfl | rfl : k = q ∨ k = q + 1 := by omega
  · simp only [beq_iff_eq]
    split_ifs <;> omega
  · rw [Nat.mul_add] at hlow' hhigh' hodd'
    simp only [beq_iff_eq]
    split_ifs <;> omega

namespace Binary64

/-! ## The last place -/

/-- The bits of the double `m * 2 ^ e`. -/
def bitsOf (m : Nat) (e : Int) : Nat :=
  if m < 2 ^ 52 then m else (e + 1075).toNat * 2 ^ 52 + (m - 2 ^ 52)

theorem scaled_pos {n d : Nat} (hd : 0 < d) (e : Int) : 0 < (scaled n d e).2 := by
  unfold scaled
  split
  · exact Nat.mul_pos hd (Nat.pow_pos (by decide))
  · exact hd

theorem scaled_div (n d : Nat) (e : Int) :
    ((scaled n d e).1 : ℚ) / (scaled n d e).2 = n / d / 2 ^ e := by
  unfold scaled
  split
  case isTrue h =>
    have hcast : (2 : ℚ) ^ e = ((Nat.pow 2 e.toNat : Nat) : ℚ) := by
      obtain ⟨k, rfl⟩ := Int.eq_ofNat_of_zero_le h
      simp
    rw [hcast, Nat.cast_mul, div_div]
  case isFalse h =>
    have hcast : (2 : ℚ) ^ e = (((Nat.pow 2 (-e).toNat : Nat) : ℚ))⁻¹ := by
      obtain ⟨k, hk⟩ := Int.eq_ofNat_of_zero_le (by omega : 0 ≤ -e)
      rw [← neg_neg e, zpow_neg, neg_neg, hk]
      simp
    rw [hcast, Nat.cast_mul, div_inv_eq_mul, div_mul_eq_mul_div]

theorem scaled_lt_iff {n d : Nat} (hd : 0 < d) (e : Int) (k : Nat) :
    (scaled n d e).1 < (scaled n d e).2 * Nat.pow 2 k ↔ (n : ℚ) / d < 2 ^ (k + e) := by
  have hpos : (0 : ℚ) < (scaled n d e).2 := by exact_mod_cast scaled_pos hd e
  rw [pow_two_mul, ← div_lt_iff₀ (pow_two_pos e), ← scaled_div, div_lt_iff₀ hpos, mul_comm,
    ← Nat.cast_lt (α := ℚ)]
  norm_num

theorem log2_spec {n : Nat} (hn : n ≠ 0) :
    (2 : ℚ) ^ (n.log2 : Int) ≤ n ∧ (n : ℚ) < 2 ^ ((n.log2 : Int) + 1) := by
  have hlow := Nat.log2_self_le hn
  have hhigh := Nat.lt_log2_self (n := n)
  constructor
  · rw [zpow_natCast]
    exact_mod_cast hlow
  · have hcast : ((n.log2 : Int) + 1) = ((n.log2 + 1 : Nat) : Int) := by push_cast; rfl
    rw [hcast, zpow_natCast]
    exact_mod_cast hhigh

theorem size_spec {n d : Nat} (hn : n ≠ 0) (hd : 0 < d) :
    (2 : ℚ) ^ ((n.log2 : Int) - d.log2 - 1) < n / d ∧ (n : ℚ) / d < 2 ^ ((n.log2 : Int) - d.log2 + 1) := by
  obtain ⟨hnlow, hnhigh⟩ := log2_spec hn
  obtain ⟨hdlow, hdhigh⟩ := log2_spec (Nat.pos_iff_ne_zero.mp hd)
  have hd' : (0 : ℚ) < d := by exact_mod_cast hd
  constructor
  · rw [lt_div_iff₀ hd']
    have hsum : (n.log2 : Int) = (n.log2 : Int) - d.log2 - 1 + (d.log2 + 1) := by ring
    calc (2 : ℚ) ^ ((n.log2 : Int) - d.log2 - 1) * d
        < 2 ^ ((n.log2 : Int) - d.log2 - 1) * 2 ^ ((d.log2 : Int) + 1) :=
          mul_lt_mul_of_pos_left hdhigh (pow_two_pos _)
      _ = 2 ^ (n.log2 : Int) := by rw [← zpow_add₀ (by norm_num), ← hsum]
      _ ≤ n := hnlow
  · rw [div_lt_iff₀ hd']
    have hsum : (n.log2 : Int) + 1 = (n.log2 : Int) - d.log2 + 1 + d.log2 := by ring
    calc (n : ℚ) < 2 ^ ((n.log2 : Int) + 1) := hnhigh
      _ = 2 ^ ((n.log2 : Int) - d.log2 + 1) * 2 ^ (d.log2 : Int) := by
          rw [← zpow_add₀ (by norm_num), ← hsum]
      _ ≤ 2 ^ ((n.log2 : Int) - d.log2 + 1) * d := mul_le_mul_of_nonneg_left hdlow (pow_two_pos _).le

theorem lastPlace_spec {n d : Nat} (hn : n ≠ 0) (hd : 0 < d) :
    (2 : ℚ) ^ (52 + lastPlace n d) ≤ n / d ∧ (n : ℚ) / d < 2 ^ (53 + lastPlace n d) := by
  obtain ⟨hlow, hhigh⟩ := size_spec hn hd
  unfold lastPlace
  generalize (n.log2 : Int) - d.log2 = size at *
  dsimp only
  have hfits := scaled_lt_iff (n := n) hd (size - 53) 53
  have hsize : ((53 : Nat) : Int) + (size - 53) = size := by omega
  rw [hsize] at hfits
  split
  case isTrue h =>
    have heq : 52 + (size - 53) = size - 1 := by ring
    have heq' : 53 + (size - 53) = size := by ring
    rw [heq, heq']
    exact ⟨hlow.le, hfits.mp h⟩
  case isFalse h =>
    have heq : 52 + (size - 52) = size := by ring
    have heq' : 53 + (size - 52) = size + 1 := by ring
    rw [heq, heq']
    exact ⟨not_lt.mp fun hlt => h (hfits.mpr hlt), hhigh⟩

theorem nearestBits_of_ne_zero {n d : Nat} (hn : n ≠ 0) :
    nearestBits n d = packed
      (divNearest (scaled n d (max (lastPlace n d) (-1074))).1 (scaled n d (max (lastPlace n d) (-1074))).2)
      (max (lastPlace n d) (-1074)) := by
  exact if_neg hn

/-! ## Numbers that round to a double -/

variable {m n d : Nat} {e : Int}

/-- The last place of a number that rounds to a double is that of the double, or the one below it: then
the double is a power of two. -/
theorem place_cases (hm : IsDouble m e) (hn : n ≠ 0) (hd : 0 < d) (h : RoundsTo m e (n / d)) :
    max (lastPlace n d) (-1074) = e ∨
      (max (lastPlace n d) (-1074) = e - 1 ∧ m = 2 ^ 52 ∧ -1074 < e ∧ (n : ℚ) / d < 2 ^ (52 + e)) := by
  obtain ⟨hlow, hhigh⟩ := lastPlace_spec hn hd
  generalize lastPlace n d = g at *
  have hpow := pow_two_pos e
  have hbound : ((m : ℚ) + 1 / 2) * 2 ^ e ≤ 2 ^ (53 + e) - 1 / 2 * 2 ^ e := by
    have hlt : (m : ℚ) + 1 ≤ 2 ^ 53 := by exact_mod_cast hm.lt
    have hsplit : (2 : ℚ) ^ (53 + e) = 2 ^ 53 * 2 ^ e := pow_two_mul 53 e
    rw [hsplit]
    nlinarith
  have hle : g ≤ e := by
    have hlt : (2 : ℚ) ^ (52 + g) < 2 ^ (53 + e) := by linarith [h.high]
    have := pow_two_lt_iff.mp hlt
    omega
  have hlowest := hm.low
  by_cases hge : e ≤ g
  · exact .inl (by omega)
  by_cases hbottom : e = -1074
  · exact .inl (by omega)
  have hfull : 2 ^ 52 ≤ m := hm.full.resolve_left hbottom
  have hsplit : (2 : ℚ) ^ (52 + e) = 2 ^ 52 * 2 ^ e := pow_two_mul 52 e
  have hlt : (n : ℚ) / d < 2 ^ (52 + e) := by
    refine hhigh.trans_le (zpow_le_zpow_right₀ (by norm_num) ?_)
    omega
  -- a lower place than that of the double is left only below a power of two
  have hpower : m = 2 ^ 52 := by
    by_contra hne
    have hnext : (2 : ℚ) ^ 52 + 1 ≤ m := by exact_mod_cast (by omega : 2 ^ 52 + 1 ≤ m)
    have hhalf := halfBelow_le m e
    nlinarith [h.low]
  have hge' : e - 1 ≤ g := by
    have hquarter : halfBelow m e = 1 / 4 := if_pos ⟨hpower, by omega⟩
    have hx := h.low
    rw [hquarter, hpower] at hx
    have hsplit' : (2 : ℚ) ^ (53 + g) = 2 ^ 53 * 2 ^ g := pow_two_mul 53 g
    by_contra hlt'
    have hle' : (2 : ℚ) ^ (53 + g) ≤ 2 ^ (51 + e) := zpow_le_zpow_right₀ (by norm_num) (by omega)
    have hsplit'' : (2 : ℚ) ^ (51 + e) = 2 ^ 51 * 2 ^ e := pow_two_mul 51 e
    push_cast at hx
    nlinarith
  exact .inr ⟨by omega, hpower, by omega, hlt⟩

theorem mantissa_eq (hd : 0 < d) (h : RoundsTo m e (n / d)) :
    divNearest (scaled n d e).1 (scaled n d e).2 = m := by
  have hpow := pow_two_pos e
  have hhalf := halfBelow_le m e
  refine divNearest_eq (scaled_pos hd e) ?_ ?_ fun hodd => ?_
  · rw [scaled_div, le_div_iff₀ hpow]
    nlinarith [h.low]
  · rw [scaled_div, div_le_iff₀ hpow]
    exact h.high
  · obtain ⟨hlow, hhigh⟩ := h.odd hodd
    rw [scaled_div, lt_div_iff₀ hpow, div_lt_iff₀ hpow]
    exact ⟨by nlinarith, hhigh⟩

theorem mantissa_carries (hd : 0 < d) (hpower : m = 2 ^ 52) (he : -1074 < e) (h : RoundsTo m e (n / d))
    (hlt : (n : ℚ) / d < 2 ^ (52 + e)) :
    divNearest (scaled n d (e - 1)).1 (scaled n d (e - 1)).2 = 2 ^ 53 := by
  have hpow := pow_two_pos (e - 1)
  have hdouble : (2 : ℚ) ^ e = 2 * 2 ^ (e - 1) := by
    rw [← pow_two_succ]
    ring_nf
  have hsplit : (2 : ℚ) ^ (52 + e) = 2 ^ 52 * 2 ^ e := pow_two_mul 52 e
  have hquarter : halfBelow m e = 1 / 4 := if_pos ⟨hpower, he⟩
  have hlow := h.low
  rw [hquarter, hpower, hdouble] at hlow
  rw [hsplit, hdouble] at hlt
  push_cast at hlow
  refine divNearest_eq (scaled_pos hd _) ?_ ?_ fun hodd => absurd hodd (by decide)
  · rw [scaled_div, le_div_iff₀ hpow]
    push_cast
    linarith
  · rw [scaled_div, div_le_iff₀ hpow]
    push_cast
    linarith

theorem packed_eq (hm : IsDouble m e) : packed m e = bitsOf m e := by
  have hcarry : m ≠ Nat.pow 2 53 := hm.lt.ne
  have hhigh : ¬971 < e := not_lt.mpr hm.high
  simp only [packed, if_neg hcarry, if_neg hhigh]
  rfl

theorem packed_carry (he : e ≤ 971) : packed (2 ^ 53) (e - 1) = bitsOf (2 ^ 52) e := by
  have hhigh : ¬971 < e := not_lt.mpr he
  have hcarry : (2 : Nat) ^ 53 = Nat.pow 2 53 := by rfl
  have hsum : e - 1 + 1 = e := by ring
  have hpower : ¬Nat.pow 2 52 < Nat.pow 2 52 := lt_irrefl _
  simp only [packed, hcarry, if_true, hsum, if_neg hhigh, if_neg hpower, bitsOf]
  rfl

/-- The double nearest to a number that rounds to a double is that double. -/
theorem nearestBits_eq (hm : IsDouble m e) (hd : 0 < d) (h : RoundsTo m e (n / d)) :
    nearestBits n d = bitsOf m e := by
  have hn : n ≠ 0 := by
    rintro rfl
    have hpos := h.pos hm
    simp at hpos
  rw [nearestBits_of_ne_zero hn]
  obtain hplace | ⟨hplace, hpower, hbottom, hlt⟩ := place_cases hm hn hd h
  · rw [hplace, mantissa_eq hd h, packed_eq hm]
  · rw [hplace, mantissa_carries hd hpower hbottom h hlt, packed_carry hm.high, hpower]

end Binary64

end PlainSteps.Number
