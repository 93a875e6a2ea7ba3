import PlainSteps.Proofs.NearestDouble

/-!
# The shortest digits read back

`shortest_spec`: the shortest decimal of a positive double rounds to this double.

* `holds_iff` : the interval of a double holds the numbers that round to it.
* `onGrid?_spec` : what is found on a grid lies in the interval; `exists_onGrid?` : something is found on
  every grid that is finer than half of the last place.
* `magnitude_spec` : the first digit of the double does not stand below the place that is taken for it, so
  the grid of 18 digits is fine enough, and the search ends there at the latest (`search_spec`).
-/

namespace PlainSteps.Number

variable {m : Nat} {e : Int}

theorem pow_ten_pos (k : Int) : (0 : ℚ) < 10 ^ k := by positivity

/-! ## The rounding interval -/

/-- What the distance to the double below is in quarters of the last place. -/
def quartersBelow (m : Nat) (e : Int) : Nat := if m == Nat.pow 2 52 && -1074 < e then 1 else 2

theorem quartersBelow_le (m : Nat) (e : Int) : quartersBelow m e ≤ 2 := by
  unfold quartersBelow
  split <;> decide

theorem halfBelow_eq (m : Nat) (e : Int) : halfBelow m e = (quartersBelow m e : ℚ) / 4 := by
  unfold halfBelow quartersBelow
  by_cases h : m = 2 ^ 52 ∧ -1074 < e
  · rw [if_pos h, if_pos (by simpa using h)]
    norm_num
  · rw [if_neg h, if_neg (by simpa using h)]
    norm_num

/-- The interval is counted in quarters of the last place, which are whole numbers of its units. -/
theorem ofDouble_eq (m : Nat) (e : Int) : ∃ s unit : Nat, 0 < unit ∧ (s : ℚ) = 2 ^ (e - 2) * unit ∧
    Interval.ofDouble m e =
      ⟨(4 * m - quartersBelow m e) * s, 4 * m * s, (4 * m + 2) * s, unit, m % 2 == 0⟩ := by
  unfold Interval.ofDouble
  dsimp only
  split
  case isTrue h =>
    obtain ⟨k, hk⟩ := Int.eq_ofNat_of_zero_le h
    refine ⟨Nat.pow 2 (e - 2).toNat, 1, Nat.one_pos, ?_, rfl⟩
    rw [hk]
    simp
  case isFalse h =>
    obtain ⟨k, hk⟩ := Int.eq_ofNat_of_zero_le (by omega : 0 ≤ -(e - 2))
    refine ⟨1, Nat.pow 2 (-(e - 2)).toNat, Nat.pow_pos (by decide), ?_, ?_⟩
    · rw [← neg_neg (e - 2), zpow_neg, neg_neg, hk]
      simp
    · rw [Nat.mul_one, Nat.mul_one, Nat.mul_one]
      rfl

/-- The interval of a double, as numbers. -/
structure Interval.Spans (i : Interval) (m : Nat) (e : Int) : Prop where
  unit : 0 < i.unit
  low : (i.low : ℚ) = (m - halfBelow m e) * 2 ^ e * i.unit
  value : (i.value : ℚ) = m * 2 ^ e * i.unit
  high : (i.high : ℚ) = (m + 1 / 2) * 2 ^ e * i.unit
  closed : i.closed = true ↔ m % 2 = 0

theorem ofDouble_spans (hm : 0 < m) (e : Int) : (Interval.ofDouble m e).Spans m e := by
  obtain ⟨s, unit, hunit, hs, hi⟩ := ofDouble_eq m e
  have hle := quartersBelow_le m e
  have hpow : (2 : ℚ) ^ e = 4 * 2 ^ (e - 2) := by
    have hsum : e = 2 + (e - 2) := by ring
    rw [hsum, zpow_add₀ (by norm_num), ← hsum]
    norm_num
  rw [hi]
  refine ⟨hunit, ?_, ?_, ?_, by simp⟩
  · rw [Nat.cast_mul, Nat.cast_sub (by omega), hs, hpow, halfBelow_eq]
    push_cast
    ring
  · rw [Nat.cast_mul, hs, hpow]
    push_cast
    ring
  · rw [Nat.cast_mul, hs, hpow]
    push_cast
    ring

theorem holds_iff {i : Interval} (hi : i.Spans m e) {n num den : Nat} (hden : 0 < den) :
    i.holds n num den = true ↔ RoundsTo m e (n * num / den) := by
  have hden' : (0 : ℚ) < den := by exact_mod_cast hden
  have hunit : (0 : ℚ) < i.unit := by exact_mod_cast hi.unit
  have hcast : ∀ a b : Nat, (a ≤ b ↔ (a : ℚ) ≤ b) ∧ (a < b ↔ (a : ℚ) < b) := fun a b =>
    ⟨Nat.cast_le.symm, Nat.cast_lt.symm⟩
  -- both sides of a comparison have the factor `unit`
  have hlow : (i.low * den ≤ n * num * i.unit ↔ ((m : ℚ) - halfBelow m e) * 2 ^ e ≤ n * num / den) ∧
      (i.low * den < n * num * i.unit ↔ ((m : ℚ) - halfBelow m e) * 2 ^ e < n * num / den) := by
    rw [(hcast _ _).1, (hcast _ _).2, le_div_iff₀ hden', lt_div_iff₀ hden']
    push_cast
    rw [hi.low, mul_right_comm, mul_le_mul_iff_left₀ hunit, mul_lt_mul_iff_left₀ hunit]
    exact ⟨Iff.rfl, Iff.rfl⟩
  have hhigh : (n * num * i.unit ≤ i.high * den ↔ (n * num / den : ℚ) ≤ (m + 1 / 2) * 2 ^ e) ∧
      (n * num * i.unit < i.high * den ↔ (n * num / den : ℚ) < (m + 1 / 2) * 2 ^ e) := by
    rw [(hcast _ _).1, (hcast _ _).2, div_le_iff₀ hden', div_lt_iff₀ hden']
    push_cast
    rw [hi.high, mul_right_comm _ (i.unit : ℚ), mul_le_mul_iff_left₀ hunit, mul_lt_mul_iff_left₀ hunit]
    exact ⟨Iff.rfl, Iff.rfl⟩
  unfold Interval.holds
  dsimp only
  by_cases heven : m % 2 = 0
  · rw [if_pos (hi.closed.mpr heven), Bool.and_eq_true, decide_eq_true_eq, decide_eq_true_eq, hlow.1,
      hhigh.1]
    constructor
    · rintro ⟨hl, hh⟩
      exact ⟨hl, hh, fun hodd => by omega⟩
    · rintro ⟨hl, hh, -⟩
      exact ⟨hl, hh⟩
  · rw [if_neg fun hclosed => heven (hi.closed.mp hclosed), Bool.and_eq_true, decide_eq_true_eq,
      decide_eq_true_eq, hlow.2, hhigh.2]
    constructor
    · rintro ⟨hl, hh⟩
      exact ⟨hl.le, hh.le, fun _ => ⟨hl, hh⟩⟩
    · rintro ⟨-, -, hodd⟩
      exact hodd (by omega)

/-! ## Grids -/

/-- The width of a grid, as a quotient. -/
def gridNum (k : Int) : Nat := if 0 ≤ k then Nat.pow 10 k.toNat else 1

def gridDen (k : Int) : Nat := if 0 ≤ k then 1 else Nat.pow 10 (-k).toNat

theorem gridNum_pos (k : Int) : 0 < gridNum k := by
  unfold gridNum
  split
  · exact Nat.pow_pos (by decide)
  · exact Nat.one_pos

theorem gridDen_pos (k : Int) : 0 < gridDen k := by
  unfold gridDen
  split
  · exact Nat.one_pos
  · exact Nat.pow_pos (by decide)

theorem grid_eq (k : Int) : (gridNum k : ℚ) / gridDen k = 10 ^ k := by
  unfold gridNum gridDen
  split
  case isTrue h =>
    obtain ⟨j, rfl⟩ := Int.eq_ofNat_of_zero_le h
    simp
  case isFalse h =>
    obtain ⟨j, hj⟩ := Int.eq_ofNat_of_zero_le (by omega : 0 ≤ -k)
    rw [← neg_neg k, zpow_neg, neg_neg, hj]
    simp

/-- The neighbour of the interval's value below it on a grid. -/
def Interval.floorOn (i : Interval) (k : Int) : Nat :=
  i.value * gridDen k / (i.unit * gridNum k)

theorem onGrid?_eq (i : Interval) (k : Int) : ∃ lowNearer : Bool, i.onGrid? k =
    match i.floorOn k != 0 && i.holds (i.floorOn k) (gridNum k) (gridDen k),
      i.holds (i.floorOn k + 1) (gridNum k) (gridDen k) with
    | true, true => some ⟨if lowNearer then i.floorOn k else i.floorOn k + 1, k⟩
    | true, false => some ⟨i.floorOn k, k⟩
    | false, true => some ⟨i.floorOn k + 1, k⟩
    | false, false => none :=
  ⟨_, rfl⟩

theorem onGrid?_spec {i : Interval} (hi : i.Spans m e) {k : Int} {d : Decimal}
    (h : i.onGrid? k = some d) : d.digits ≠ 0 ∧ RoundsTo m e (d.digits * 10 ^ d.exponent) := by
  have hround : ∀ n : Nat, i.holds n (gridNum k) (gridDen k) = true → RoundsTo m e (n * 10 ^ k) := by
    intro n hn
    rw [← grid_eq, ← mul_div_assoc]
    exact (holds_iff hi (gridDen_pos k)).mp hn
  obtain ⟨lowNearer, heq⟩ := onGrid?_eq i k
  rw [heq] at h
  generalize i.floorOn k = floor at h
  split at h
  case h_1 hlow hhigh =>
    obtain ⟨hne, hlow⟩ := Bool.and_eq_true_iff.mp hlow
    obtain rfl := Option.some.inj h
    cases lowNearer
    · exact ⟨Nat.succ_ne_zero _, hround _ hhigh⟩
    · exact ⟨by simpa using hne, hround _ hlow⟩
  case h_2 hlow hhigh =>
    obtain ⟨hne, hlow⟩ := Bool.and_eq_true_iff.mp hlow
    obtain rfl := Option.some.inj h
    exact ⟨by simpa using hne, hround _ hlow⟩
  case h_3 hlow hhigh =>
    obtain rfl := Option.some.inj h
    exact ⟨Nat.succ_ne_zero _, hround _ hhigh⟩
  case h_4 => cases h

/-- On a grid that is finer than half of the last place, the neighbour above the double rounds to it. -/
theorem exists_onGrid? {i : Interval} (hi : i.Spans m e) {k : Int} (h : (10 : ℚ) ^ k < 1 / 2 * 2 ^ e) :
    ∃ d, i.onGrid? k = some d := by
  have hunit : (0 : ℚ) < i.unit := by exact_mod_cast hi.unit
  have hnum : (0 : ℚ) < gridNum k := by exact_mod_cast gridNum_pos k
  have hden : (0 : ℚ) < gridDen k := by exact_mod_cast gridDen_pos k
  have hpos : 0 < i.unit * gridNum k := Nat.mul_pos hi.unit (gridNum_pos k)
  have hwidth := grid_eq k
  -- the double lies between two neighbours
  have hle : (i.floorOn k : ℚ) * 10 ^ k ≤ m * 2 ^ e := by
    have hle' : (i.floorOn k : ℚ) * (i.unit * gridNum k) ≤ i.value * gridDen k := by
      exact_mod_cast Nat.div_mul_le_self _ _
    rw [hi.value] at hle'
    rw [← hwidth, ← mul_div_assoc, div_le_iff₀ hden]
    have hle'' : (i.floorOn k : ℚ) * gridNum k * i.unit ≤ m * 2 ^ e * gridDen k * i.unit := by linarith
    exact le_of_mul_le_mul_right hle'' hunit
  have hlt : (m : ℚ) * 2 ^ e < (i.floorOn k + 1) * 10 ^ k := by
    have hlt' : (i.value : ℚ) * gridDen k < i.unit * gridNum k * (i.floorOn k + 1) := by
      exact_mod_cast Nat.lt_mul_div_succ (i.value * gridDen k) hpos
    rw [hi.value] at hlt'
    rw [← hwidth, ← mul_div_assoc, lt_div_iff₀ hden]
    have hlt'' : (m : ℚ) * 2 ^ e * gridDen k * i.unit < (i.floorOn k + 1) * gridNum k * i.unit := by
      linarith
    exact lt_of_mul_lt_mul_right hlt'' hunit.le
  have hround : RoundsTo m e (((i.floorOn k + 1 : Nat) : ℚ) * 10 ^ k) := by
    have hbelow : 0 ≤ halfBelow m e * 2 ^ e := by
      rw [halfBelow_eq]
      positivity
    push_cast
    have hl : ((m : ℚ) - halfBelow m e) * 2 ^ e < (i.floorOn k + 1) * 10 ^ k := by linarith
    have hh : ((i.floorOn k : ℚ) + 1) * 10 ^ k < (m + 1 / 2) * 2 ^ e := by linarith
    exact ⟨hl.le, hh.le, fun _ => ⟨hl, hh⟩⟩
  have hholds : i.holds (i.floorOn k + 1) (gridNum k) (gridDen k) = true := by
    rw [holds_iff hi (gridDen_pos k), mul_div_assoc, hwidth]
    exact hround
  obtain ⟨lowNearer, heq⟩ := onGrid?_eq i k
  rw [heq, hholds]
  cases i.floorOn k != 0 && i.holds (i.floorOn k) (gridNum k) (gridDen k)
  · exact ⟨_, rfl⟩
  · exact ⟨_, rfl⟩

theorem search_spec {i : Interval} {top : Int} {fuel n k : Nat} (hn : n ≤ k) (hk : k < n + fuel)
    (h : ∃ d, i.onGrid? (top - k) = some d) : ∃ j : Int, i.onGrid? j = some (i.search top fuel n) := by
  induction fuel generalizing n with
  | zero => omega
  | succ fuel ih =>
    cases hgrid : i.onGrid? (top - n) with
    | some d =>
      rw [Interval.search, hgrid]
      exact ⟨_, hgrid⟩
    | none =>
      rw [Interval.search, hgrid]
      refine ih ?_ (by omega)
      rcases Nat.lt_or_eq_of_le hn with hlt | rfl
      · exact hlt
      · obtain ⟨d, hd⟩ := h
        rw [hgrid] at hd
        cases hd

/-! ## The first digit -/

theorem up_spec {below : Int → Bool} {P : Int → Prop} (hstep : ∀ k, below k = false → P k) (fuel : Nat)
    {k : Int} (hk : P (k - 1)) : P (magnitude.up below fuel k - 1) := by
  induction fuel generalizing k with
  | zero => exact hk
  | succ fuel ih =>
    rw [magnitude.up]
    split
    · exact hk
    case isFalse h =>
      apply ih
      rw [add_sub_cancel_right]
      exact hstep k (by simpa using h)

theorem pow_le_of_nat {a b c d : Nat} (h : Nat.pow a b ≤ Nat.pow c d) : (a : ℚ) ^ b ≤ (c : ℚ) ^ d := by
  exact_mod_cast h

/-- 1233 / 4096 is so little below the logarithm of two that it gives a place for the first digit which is
too high by at most one. -/
theorem ten_pow_le {t g : Int} (hg : g * 4096 ≤ t * 1233) (ht : -4096 ≤ t) : (10 : ℚ) ^ (g - 1) ≤ 2 ^ t := by
  have hlow : ((10 : Nat) : ℚ) ^ 1233 ≤ ((2 : Nat) : ℚ) ^ 4096 := pow_le_of_nat (by decide +kernel)
  have hhigh : ((2 : Nat) : ℚ) ^ 4096 ≤ ((10 : Nat) : ℚ) ^ 1234 := pow_le_of_nat (by decide +kernel)
  have hten : (1 : ℚ) ≤ (10 : Nat) := by norm_num
  have hpos : ∀ b k : Nat, 0 < b → (0 : ℚ) < (b : ℚ) ^ k := fun b k hb =>
    pow_pos (by exact_mod_cast hb) k
  -- the 4096th powers of both sides are powers with the exponent `t`
  have hpower : (((10 : Nat) : ℚ) ^ (g - 1)) ^ 4096 ≤ (((2 : Nat) : ℚ) ^ t) ^ 4096 := by
    rw [← zpow_natCast, ← zpow_mul, ← zpow_natCast (((2 : Nat) : ℚ) ^ t), ← zpow_mul,
      mul_comm t, zpow_mul ((2 : Nat) : ℚ), zpow_natCast ((2 : Nat) : ℚ)]
    rcases le_or_gt 0 t with hsign | hsign
    · calc ((10 : Nat) : ℚ) ^ ((g - 1) * (4096 : Nat))
          ≤ ((10 : Nat) : ℚ) ^ ((1233 : Nat) * t) := zpow_le_zpow_right₀ hten (by push_cast; omega)
        _ = (((10 : Nat) : ℚ) ^ 1233) ^ t := by rw [zpow_mul, zpow_natCast]
        _ ≤ (((2 : Nat) : ℚ) ^ 4096) ^ t := zpow_le_zpow_left₀ hsign (hpos 10 1233 (by decide)).le hlow
    · have hinv : ((((10 : Nat) : ℚ) ^ 1234) ^ t) ≤ (((2 : Nat) : ℚ) ^ 4096) ^ t := by
        obtain ⟨j, hj⟩ := Int.eq_ofNat_of_zero_le (by omega : 0 ≤ -t)
        have ht' : t = -(j : Int) := by omega
        rw [ht', zpow_neg, zpow_neg, zpow_natCast, zpow_natCast]
        exact inv_anti₀ (pow_pos (hpos 2 4096 (by decide)) j)
          (pow_le_pow_left₀ (hpos 2 4096 (by decide)).le hhigh j)
      calc ((10 : Nat) : ℚ) ^ ((g - 1) * (4096 : Nat))
          ≤ ((10 : Nat) : ℚ) ^ ((1234 : Nat) * t) := zpow_le_zpow_right₀ hten (by push_cast; omega)
        _ = (((10 : Nat) : ℚ) ^ 1234) ^ t := by rw [zpow_mul, zpow_natCast]
        _ ≤ (((2 : Nat) : ℚ) ^ 4096) ^ t := hinv
  have hroot := le_of_pow_le_pow_left₀ (Nat.succ_ne_zero 4095) (zpow_pos (by norm_num) t).le hpower
  exact_mod_cast hroot

theorem magnitude_spec {n d : Nat} (hn : n ≠ 0) (hd : 0 < d) (hsize : -4096 ≤ (n.log2 : Int) - d.log2 - 1) :
    (10 : ℚ) ^ (magnitude n d - 1) ≤ n / d := by
  have hd' : (0 : ℚ) < d := by exact_mod_cast hd
  unfold magnitude
  dsimp only
  refine up_spec (P := fun k => (10 : ℚ) ^ k ≤ n / d) ?_ 4 ?_
  · intro k hbelow
    rw [← grid_eq, div_le_div_iff₀ (by exact_mod_cast gridDen_pos k) hd']
    unfold gridNum gridDen
    split at hbelow
    case isTrue h =>
      rw [if_pos h, if_pos h]
      have hle : d * Nat.pow 10 k.toNat ≤ n := by simpa using hbelow
      rw [mul_comm, Nat.cast_one, mul_one]
      exact_mod_cast hle
    case isFalse h =>
      rw [if_neg h, if_neg h]
      have hle : d ≤ n * Nat.pow 10 (-k).toNat := by simpa using hbelow
      rw [Nat.cast_one, one_mul]
      exact_mod_cast hle
  · have hguess := Int.ediv_mul_le (((n.log2 : Int) - d.log2 - 1) * 1233) (by decide : (4096 : Int) ≠ 0)
    rw [← Int.fdiv_eq_ediv_of_nonneg _ (by decide)] at hguess
    exact (ten_pow_le hguess hsize).trans (Binary64.size_spec hn hd).1.le

/-! ## The shortest decimal -/

theorem strip_spec (fuel : Nat) (d : Decimal) (hd : d.digits ≠ 0) :
    (d.strip fuel).digits ≠ 0 ∧
      ((d.strip fuel).digits : ℚ) * 10 ^ (d.strip fuel).exponent = d.digits * 10 ^ d.exponent := by
  induction fuel generalizing d with
  | zero => exact ⟨hd, rfl⟩
  | succ fuel ih =>
    rw [Decimal.strip]
    split
    case isTrue h =>
      have hmod : d.digits % 10 = 0 := by
        simp only [Bool.and_eq_true, beq_iff_eq] at h
        exact h.2
      obtain ⟨hne, hvalue⟩ := ih ⟨d.digits / 10, d.exponent + 1⟩ (by dsimp only; omega)
      have hdigits : (d.digits : ℚ) = 10 * (d.digits / 10 : Nat) := by
        exact_mod_cast (by omega : d.digits = 10 * (d.digits / 10))
      refine ⟨hne, hvalue.trans ?_⟩
      rw [zpow_add_one₀ (by norm_num), hdigits]
      ring
    case isFalse h => exact ⟨hd, rfl⟩

theorem exists_fine_grid (hm : IsDouble m e) :
    ∃ d, (Interval.ofDouble m e).onGrid?
      (magnitude (Interval.ofDouble m e).value (Interval.ofDouble m e).unit - (18 : Nat)) = some d := by
  have hi := ofDouble_spans hm.pos e
  have hunit : (0 : ℚ) < (Interval.ofDouble m e).unit := by exact_mod_cast hi.unit
  have hvalue := hi.value
  have hpos : (0 : ℚ) < m * 2 ^ e := mul_pos (by exact_mod_cast hm.pos) (pow_two_pos e)
  have hquotient : ((Interval.ofDouble m e).value : ℚ) / (Interval.ofDouble m e).unit = m * 2 ^ e := by
    rw [hvalue, mul_div_assoc, div_self hunit.ne', mul_one]
  have hn : (Interval.ofDouble m e).value ≠ 0 := by
    intro hzero
    rw [hzero, Nat.cast_zero, zero_div] at hquotient
    exact hpos.ne hquotient
  have hsize : (-4096 : Int) ≤ (Interval.ofDouble m e).value.log2 - (Interval.ofDouble m e).unit.log2 - 1 := by
    have hlt := (Binary64.size_spec hn hi.unit).2
    have hone : (1 : ℚ) ≤ m := by exact_mod_cast hm.pos
    have hle : (2 : ℚ) ^ (-1074 : Int) ≤ m * 2 ^ e := calc
      (2 : ℚ) ^ (-1074 : Int) ≤ 2 ^ e := zpow_le_zpow_right₀ (by norm_num) hm.low
      _ ≤ m * 2 ^ e := le_mul_of_one_le_left (pow_two_pos e).le hone
    rw [hquotient] at hlt
    have := pow_two_lt_iff.mp (hle.trans_lt hlt)
    omega
  have htop := magnitude_spec hn hi.unit hsize
  rw [hquotient] at htop
  generalize magnitude (Interval.ofDouble m e).value (Interval.ofDouble m e).unit = top at *
  refine exists_onGrid? hi ?_
  have hlt : (m : ℚ) < 2 ^ 53 := by exact_mod_cast hm.lt
  have hsplit : (10 : ℚ) ^ (top - 1) = 10 ^ 17 * 10 ^ (top - (18 : Nat)) := by
    have hsum : top - 1 = (17 : Nat) + (top - (18 : Nat)) := by push_cast; ring
    rw [hsum, zpow_add₀ (by norm_num), zpow_natCast]
  have hdouble : (m : ℚ) * 2 ^ e < 2 ^ 53 * 2 ^ e := mul_lt_mul_of_pos_right hlt (pow_two_pos e)
  have hpow := pow_two_pos e
  rw [hsplit] at htop
  generalize (10 : ℚ) ^ (top - (18 : Nat)) = width at *
  linarith

/-- The shortest decimal of a positive double rounds to it. -/
theorem shortest_spec (hm : IsDouble m e) :
    (shortest m e).digits ≠ 0 ∧ RoundsTo m e ((shortest m e).digits * 10 ^ (shortest m e).exponent) := by
  have hi := ofDouble_spans hm.pos e
  obtain ⟨j, hj⟩ := search_spec (by decide : 1 ≤ 18) (by decide : 18 < 1 + 18) (exists_fine_grid hm)
  obtain ⟨hdigits, hround⟩ := onGrid?_spec hi hj
  obtain ⟨hne, hvalue⟩ := strip_spec 20 _ hdigits
  rw [shortest, if_neg hm.pos.ne']
  exact ⟨hne, hvalue ▸ hround⟩

end PlainSteps.Number
