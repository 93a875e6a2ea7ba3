import Mathlib.Data.Bool.AllAny
import Mathlib.Data.List.TakeWhile
import PlainSteps.Proofs.DoubleDecimals
import PlainSteps.Toml.Reader
import PlainSteps.Toml.Writer

/-!
# Numbers of TOML are read as they are written

`Toml.scalar?_float`: the text of a double that is not NaN is read as that double, bit for bit; and
`Toml.scalar?_integer`: the text of an integer of the format as that integer.

A finite double is written with a whole part and a fraction (`Positional`), whichever of its digits stand
before the point (`decimal_spec`). The reader takes them apart at the point (`float?_positional`), and by
`Number.Binary64.ofParts_signed` the decimal is read as the double it was made for.
-/

namespace PlainSteps

open Text Number

namespace Number

/-! ## Decimals written out -/

/-- A whole part and a fraction, both with a digit, and no zero before another digit. -/
structure Positional (whole fraction : List Char) : Prop where
  digits : ∀ c ∈ whole ++ fraction, isAsciiDigit c = true
  whole_ne : whole ≠ []
  fraction_ne : fraction ≠ []
  leading : ∀ t, whole = '0' :: t → t = []

/-- The number that a whole part and a fraction stand for. -/
def positionalValue (whole fraction : List Char) : ℚ :=
  digitsValue (whole ++ fraction) * 10 ^ ((0 : Int) - fraction.length)

theorem digitsFrom_append (n : Nat) (s t : List Char) :
    digitsFrom n (s ++ t) = digitsFrom (digitsFrom n s) t := by
  induction s generalizing n with
  | nil => rfl
  | cons c s ih => rw [List.cons_append, digitsFrom_cons, digitsFrom_cons, ih]

theorem digitsFrom_zeros (n k : Nat) : digitsFrom n (List.replicate k '0') = n * 10 ^ k := by
  rw [digitsFrom_eq, Nat.ofDigitChars_replicate_zero, Nat.mul_comm]

theorem isAsciiDigit_of_mem_zeros {k : Nat} {c : Char} (h : c ∈ List.replicate k '0') :
    isAsciiDigit c = true := by
  rw [List.eq_of_mem_replicate h]
  rfl

section digits

variable {digits : List Char} (hdigits : ∀ c ∈ digits, isAsciiDigit c = true)
  (hleading : ∀ t, digits ≠ '0' :: t)

include hdigits

include hleading in
theorem positional_whole (hne : digits ≠ []) (k : Nat) :
    Positional (digits ++ List.replicate k '0') ['0'] ∧
      positionalValue (digits ++ List.replicate k '0') ['0'] = digitsValue digits * 10 ^ (k : Int) := by
  constructor
  · refine ⟨fun c hc => ?_, by simp [hne], by simp, fun t ht => ?_⟩
    · rw [List.append_assoc] at hc
      rcases List.mem_append.mp hc with hc | hc
      · exact hdigits c hc
      · exact isAsciiDigit_of_mem_zeros (k := k + 1) (by simpa [List.replicate_succ'] using hc)
    · obtain ⟨c, s, rfl⟩ := List.exists_cons_of_ne_nil hne
      rw [List.cons_append] at ht
      obtain rfl := (List.cons.inj ht).1
      exact absurd rfl (hleading s)
  · have hlength : ((0 : Int) - (['0'] : List Char).length) = -1 := by rfl
    have hzero : digitsFrom (digitsValue digits * 10 ^ k) ['0'] = digitsValue digits * 10 ^ k * 10 := by
      rw [digitsFrom_cons, digitsFrom_nil]
      omega
    rw [positionalValue, digitsValue, digitsFrom_append, digitsFrom_append, digitsFrom_zeros, hlength]
    rw [digitsValue] at hzero
    rw [hzero, digitsValue]
    push_cast
    rw [zpow_natCast]
    ring

include hleading in
theorem positional_cut {n : Nat} (hpos : 0 < n) (hlt : n < digits.length) :
    Positional (digits.take n) (digits.drop n) ∧
      positionalValue (digits.take n) (digits.drop n) =
        digitsValue digits * 10 ^ ((n : Int) - digits.length) := by
  constructor
  · refine ⟨fun c hc => hdigits c (by rwa [List.take_append_drop] at hc), ?_, ?_, fun t ht => ?_⟩
    · rw [ne_eq, List.take_eq_nil_iff]
      rintro (rfl | rfl)
      · exact absurd hpos (lt_irrefl _)
      · exact absurd hlt (Nat.not_lt_zero _)
    · rw [ne_eq, List.drop_eq_nil_iff]
      omega
    · have hcons := congrArg (· ++ digits.drop n) ht
      simp only [List.take_append_drop, List.cons_append] at hcons
      exact absurd hcons (hleading _)
  · rw [positionalValue, List.take_append_drop, List.length_drop]
    congr 2
    omega

theorem positional_small (hne : digits ≠ []) (k : Nat) :
    Positional ['0'] (List.replicate k '0' ++ digits) ∧
      positionalValue ['0'] (List.replicate k '0' ++ digits) =
        digitsValue digits * 10 ^ (-(k + digits.length : Int)) := by
  constructor
  · refine ⟨fun c hc => ?_, by simp, by simp [hne], fun t ht => (List.cons.inj ht).2.symm⟩
    rw [← List.append_assoc] at hc
    rcases List.mem_append.mp hc with hc | hc
    · exact isAsciiDigit_of_mem_zeros (k := k + 1) (by simpa [List.replicate_succ] using hc)
    · exact hdigits c hc
  · have hzero : digitsFrom 0 ['0'] = 0 := by rfl
    rw [positionalValue, digitsValue, digitsFrom_append, digitsFrom_append, hzero, digitsFrom_zeros,
      Nat.zero_mul, List.length_append, List.length_replicate, digitsValue]
    push_cast
    ring_nf

end digits

theorem decimal_spec (d : Decimal) (hd : d.digits ≠ 0) : ∃ whole fraction : List Char,
    Positional whole fraction ∧ (Toml.floatLayout.decimal d).toList = whole ++ '.' :: fraction ∧
      positionalValue whole fraction = d.digits * 10 ^ d.exponent := by
  have htext := toList_toString d.digits
  have hdigits : ∀ c ∈ Nat.toDigits 10 d.digits, isAsciiDigit c = true := fun c hc =>
    isAsciiDigit_of_mem_toDigits hc
  have hne : Nat.toDigits 10 d.digits ≠ [] := Nat.toDigits_ne_nil
  have hleading : ∀ t, Nat.toDigits 10 d.digits ≠ '0' :: t := fun t ht =>
    hd (eq_zero_of_head_toDigits (by rw [ht]; rfl))
  have hlength : (toString d.digits).length = (Nat.toDigits 10 d.digits).length := by
    rw [← String.length_toList, htext]
  have hvalue := digitsValue_toDigits d.digits
  have htail : Toml.floatLayout.wholeTail.toList = ['.', '0'] := by rfl
  unfold Layout.decimal
  dsimp only
  rw [if_pos (by rfl)]
  split
  case isTrue hsign =>
    obtain ⟨k, hk⟩ := Int.eq_ofNat_of_zero_le hsign
    obtain ⟨hpositional, hnumber⟩ := positional_whole hdigits hleading hne k
    refine ⟨_, _, hpositional, ?_, by rw [hnumber, hvalue, hk]⟩
    rw [String.toList_append, String.toList_append, htext, htail, zeros, String.toList_ofList, hk]
    rfl
  case isFalse hsign =>
    rw [hlength, htext]
    split
    case isTrue hpoint =>
      have hcut : 0 < ((Nat.toDigits 10 d.digits).length + d.exponent).toNat ∧
          ((Nat.toDigits 10 d.digits).length + d.exponent).toNat < (Nat.toDigits 10 d.digits).length := by
        omega
      obtain ⟨hpositional, hnumber⟩ := positional_cut hdigits hleading hcut.1 hcut.2
      refine ⟨_, _, hpositional, ?_, ?_⟩
      · simp only [String.toList_append, String.toList_ofList, List.append_assoc]
        rfl
      · rw [hnumber, hvalue]
        congr 2
        omega
    case isFalse hpoint =>
      obtain ⟨hpositional, hnumber⟩ := positional_small hdigits hne
        (-((Nat.toDigits 10 d.digits).length + d.exponent)).toNat
      refine ⟨_, _, hpositional, ?_, ?_⟩
      · simp only [String.toList_append, String.toList_ofList, htext, zeros, List.append_assoc]
        rfl
      · rw [hnumber, hvalue]
        congr 2
        omega

end Number

namespace Toml

/-! ## Digits -/

theorem grouped?_digits {s : List Char} (hne : s ≠ []) (h : ∀ c ∈ s, isAsciiDigit c = true) :
    grouped? isAsciiDigit s = some s := by
  induction s with
  | nil => exact absurd rfl hne
  | cons c s ih =>
    obtain ⟨hc, hs⟩ := List.forall_mem_cons.mp h
    cases s with
    | nil => rw [grouped?, if_pos hc]
    | cons d s =>
      have hd : d ≠ '_' := by
        rintro rfl
        exact absurd (hs '_' List.mem_cons_self) (by decide)
      rw [grouped?, if_pos hc, ih (List.cons_ne_nil _ _) hs]
      · rfl
      · exact fun hnil => List.cons_ne_nil _ _ hnil
      · exact fun t ht => hd (List.cons.inj ht).1

theorem wholeDigits?_digits {s : List Char} (hne : s ≠ []) (h : ∀ c ∈ s, isAsciiDigit c = true)
    (hleading : ∀ t, s = '0' :: t → t = []) : wholeDigits? s = some s := by
  rw [wholeDigits?, grouped?_digits hne h, Option.bind_eq_bind, Option.bind_some]
  split
  case h_1 d t => exact absurd (hleading _ rfl) (List.cons_ne_nil _ _)
  case h_2 => rfl

theorem digit_plain {c : Char} (h : isAsciiDigit c = true) :
    (c != '.') = true ∧ (!(c == 'e' || c == 'E')) = true := by
  have hall := all_digits (p := fun c => (c != '.') && !(c == 'e' || c == 'E')) (by decide) h
  simpa using hall

/-! ## Floats -/

theorem float?_positional {x : Binary64} {p : Parts} (hx : x.parts? = some p) {whole fraction : List Char}
    (h : Positional whole fraction) (hzero : p.mantissa = 0 → digitsValue (whole ++ fraction) = 0)
    (hvalue : p.mantissa ≠ 0 → RoundsTo p.mantissa p.exponent (positionalValue whole fraction)) :
    float? p.negative (whole ++ '.' :: fraction) = some (float x) := by
  have hwhole : ∀ c ∈ whole, isAsciiDigit c = true := fun c hc => h.digits c (List.mem_append_left _ hc)
  have hfraction : ∀ c ∈ fraction, isAsciiDigit c = true := fun c hc =>
    h.digits c (List.mem_append_right _ hc)
  have hletters : ∀ c ∈ whole ++ '.' :: fraction, (!(c == 'e' || c == 'E')) = true := by
    intro c hc
    rcases List.mem_append.mp hc with hc | hc
    · exact (digit_plain (hwhole c hc)).2
    · rcases List.mem_cons.mp hc with rfl | hc
      · decide
      · exact (digit_plain (hfraction c hc)).2
  have hpoint : (whole ++ '.' :: fraction).takeWhile (· != '.') = whole ∧
      (whole ++ '.' :: fraction).dropWhile (· != '.') = '.' :: fraction := by
    have hplain : ∀ c ∈ whole, (c != '.') = true := fun c hc => (digit_plain (hwhole c hc)).1
    rw [List.takeWhile_append_of_pos hplain, List.dropWhile_append_of_pos hplain]
    simp
  have hread := Binary64.ofParts_signed hx h.digits hzero hvalue
  have hfinite := Binary64.isInfinite_eq_false hx
  have hbounded : (Binary64.isInfinite (ofParts whole fraction 0) && !p.negative) = false := by
    cases hneg : p.negative with
    | true => rw [Bool.not_true, Bool.and_false]
    | false =>
      rw [hneg] at hread
      have heq : ofParts whole fraction 0 = x := hread
      rw [heq, hfinite, Bool.false_and]
  rw [float?]
  dsimp only
  rw [List.takeWhile_eq_self_iff.mpr hletters, List.dropWhile_eq_nil_iff.mpr hletters, hpoint.1, hpoint.2,
    wholeDigits?_digits h.whole_ne hwhole h.leading]
  simp only [Option.bind_eq_bind, Option.bind_some, grouped?_digits h.fraction_ne hfraction, hbounded, hread]
  rfl

/-! ## Scalars -/

theorem scalar?_plain {s : List Char} (h : ∀ t, s ≠ '0' :: 'x' :: t ∧ s ≠ '0' :: 'o' :: t ∧ s ≠ '0' :: 'b' :: t)
    (htrue : s ≠ "true".toList) (hfalse : s ≠ "false".toList) :
    scalar? s =
      (let negative := s.head? == some '-'
      let body := if negative || s.head? == some '+' then s.drop 1 else s
      let word := String.ofList body
      if word == "inf" then some (float (Binary64.infinity.signed negative))
      else if word == "nan" then some (float (Binary64.nan.signed negative))
      else if body.any fun c => c == '.' || c == 'e' || c == 'E' then float? negative body
      else (wholeDigits? body).bind fun digits =>
        integer? (if negative then -(digitsValue digits : Int) else digitsValue digits)) := by
  have hne : ∀ t : String, s ≠ t.toList → (String.ofList s == t) = false := by
    intro t ht
    rw [beq_eq_false_iff_ne]
    rintro rfl
    exact ht (by rw [String.toList_ofList])
  unfold scalar?
  split
  case h_1 t => exact absurd rfl (h t).1
  case h_2 t => exact absurd rfl (h t).2.1
  case h_3 t => exact absurd rfl (h t).2.2
  case h_4 =>
    dsimp only
    rw [hne _ htrue, hne _ hfalse]
    rfl

/-- The sign of a number. -/
def signText (negative : Bool) : List Char := if negative then ['-'] else []

theorem scalar?_signed {c : Char} {s : List Char} (hc : isAsciiDigit c = true)
    (hs : ∀ d ∈ s.head?, isAsciiDigit d = true ∨ d = '.') (negative : Bool) :
    scalar? (signText negative ++ c :: s) =
      if (c :: s).any fun c => c == '.' || c == 'e' || c == 'E' then float? negative (c :: s)
      else (wholeDigits? (c :: s)).bind fun digits =>
        integer? (if negative then -(digitsValue digits : Int) else digitsValue digits) := by
  have hletter : ∀ d ∈ ['x', 'o', 'b'], ∀ t, s ≠ d :: t := by
    have hnone : ∀ d ∈ ['x', 'o', 'b'], ¬(isAsciiDigit d = true ∨ d = '.') :=
      List.all_iff_forall_prop.mp (by decide)
    rintro d hd t rfl
    exact hnone d hd (hs d rfl)
  have hfirst : c ≠ '-' ∧ c ≠ '+' ∧ c ≠ 't' ∧ c ≠ 'f' ∧ c ≠ 'i' ∧ c ≠ 'n' := by
    have hall := all_digits
      (p := fun c => c != '-' && (c != '+' && (c != 't' && (c != 'f' && (c != 'i' && c != 'n'))))) (by decide) hc
    simpa using hall
  have hword : ∀ t : String, (∀ u, t.toList ≠ c :: u) → (String.ofList (c :: s) == t) = false := by
    intro t ht
    rw [beq_eq_false_iff_ne]
    rintro rfl
    exact ht s String.toList_ofList
  have hinf := hword "inf" fun u hu => hfirst.2.2.2.2.1 (List.cons.inj hu).1.symm
  have hnan := hword "nan" fun u hu => hfirst.2.2.2.2.2 (List.cons.inj hu).1.symm
  have hmark : ∀ t, signText negative ++ c :: s ≠ '0' :: 'x' :: t ∧
      signText negative ++ c :: s ≠ '0' :: 'o' :: t ∧ signText negative ++ c :: s ≠ '0' :: 'b' :: t := by
    intro t
    cases negative with
    | true =>
      refine ⟨fun h => ?_, fun h => ?_, fun h => ?_⟩
      all_goals exact absurd (List.cons.inj h).1 (by decide)
    | false =>
      refine ⟨fun h => ?_, fun h => ?_, fun h => ?_⟩
      all_goals exact hletter _ (by decide) t (List.cons.inj h).2
  have hwords : signText negative ++ c :: s ≠ "true".toList ∧ signText negative ++ c :: s ≠ "false".toList := by
    cases negative with
    | true =>
      refine ⟨fun h => ?_, fun h => ?_⟩
      all_goals exact absurd (List.cons.inj h).1 (by decide)
    | false => exact ⟨fun h => hfirst.2.2.1 (List.cons.inj h).1, fun h => hfirst.2.2.2.1 (List.cons.inj h).1⟩
  rw [scalar?_plain hmark hwords.1 hwords.2]
  cases negative with
  | true =>
    have hhead : (signText true ++ c :: s).head? = some '-' := by rfl
    have hdrop : (signText true ++ c :: s).drop 1 = c :: s := by rfl
    simp only [hhead, hdrop, beq_self_eq_true, Bool.true_or, if_true, hinf, hnan, Bool.false_eq_true, if_false]
  | false =>
    have hbody : signText false ++ c :: s = c :: s := by rfl
    have hminus : (some c == some '-') = false := by simpa using hfirst.1
    have hplus : (some c == some '+') = false := by simpa using hfirst.2.1
    simp only [hbody, List.head?_cons, hminus, hplus, Bool.or_false, Bool.false_eq_true, if_false, hinf, hnan]

theorem toList_signed (negative : Bool) (body : String) :
    (if negative then "-" ++ body else body).toList = signText negative ++ body.toList := by
  cases negative with
  | true => rw [if_pos rfl, String.toList_append]; rfl
  | false => rfl

theorem floatText_spec {x : Binary64} {p : Parts} (hx : x.parts? = some p) : ∃ whole fraction : List Char,
    (floatText x).toList = signText p.negative ++ (whole ++ '.' :: fraction) ∧ Positional whole fraction ∧
      (p.mantissa = 0 → digitsValue (whole ++ fraction) = 0) ∧
      (p.mantissa ≠ 0 → RoundsTo p.mantissa p.exponent (positionalValue whole fraction)) := by
  have hnan : x.isNaN = false := by
    unfold Binary64.parts? at hx
    split at hx
    case isTrue => cases hx
    case isFalse hfinite =>
      unfold Binary64.isNaN
      rw [Bool.eq_false_iff.mpr hfinite, Bool.false_and]
  rw [floatText, hnan, Bool.false_and, if_neg Bool.false_ne_true, Layout.text, hx]
  dsimp only
  rw [toList_signed]
  by_cases hzero : p.mantissa = 0
  · rw [if_pos hzero]
    have hdigits : ∀ c ∈ ['0', '0'], isAsciiDigit c = true := List.all_iff_forall_prop.mp (by decide)
    refine ⟨['0'], ['0'], rfl, ⟨hdigits, by decide, by decide, fun t ht => (List.cons.inj ht).2.symm⟩,
      fun _ => by rfl, fun hne => absurd hzero hne⟩
  · obtain ⟨hmantissa, -⟩ | ⟨hdouble, -⟩ := Binary64.parts_spec hx
    · exact absurd hmantissa hzero
    · obtain ⟨hdigits, hround⟩ := shortest_spec hdouble
      obtain ⟨whole, fraction, hpositional, htext, hvalue⟩ := decimal_spec _ hdigits
      rw [if_neg hzero, htext]
      exact ⟨whole, fraction, rfl, hpositional, fun h => absurd h hzero, fun _ => hvalue ▸ hround⟩

theorem infinite_of_parts? {x : Binary64} (hx : x.parts? = none) (h : x.isNaN = false) :
    x = Binary64.infinity ∨ x = Binary64.infinity.negate := by
  have hsize := x.bits.toNat_lt
  have hfield : x.exponentField = 2047 := by
    unfold Binary64.parts? at hx
    split at hx
    case isTrue hfield => simpa using hfield
    case isFalse => split at hx <;> cases hx
  have hfraction : x.fractionField = 0 := by
    rw [Binary64.isNaN, hfield] at h
    simpa using h
  have hbits : ∀ y : Binary64, x.bits.toNat = y.bits.toNat → x = y := by
    intro y hy
    obtain ⟨bits⟩ := x
    exact congrArg Binary64.mk (UInt64.toNat_inj.mp hy)
  have hcases : x.bits.toNat = 0x7FF0000000000000 ∨ x.bits.toNat = 0xFFF0000000000000 := by
    unfold Binary64.exponentField at hfield
    unfold Binary64.fractionField at hfraction
    rw [Nat.pow_eq] at hfield hfraction
    rw [Nat.pow_eq] at hfield
    omega
  rcases hcases with hcase | hcase
  · exact .inl (hbits _ (hcase.trans rfl))
  · exact .inr (hbits _ (hcase.trans rfl))

/-- The text of a double that is not NaN is read as that double. -/
theorem scalar?_float {x : Binary64} (h : x.isNaN = false) :
    scalar? (floatText x).toList = some (float x) := by
  cases hx : x.parts? with
  | some p =>
    obtain ⟨whole, fraction, htext, hpositional, hzero, hvalue⟩ := floatText_spec hx
    have hread := float?_positional hx hpositional hzero hvalue
    obtain ⟨c, s, rfl⟩ := List.exists_cons_of_ne_nil hpositional.whole_ne
    have hc : isAsciiDigit c = true := hpositional.digits c (by simp)
    have hs : ∀ d ∈ (s ++ '.' :: fraction).head?, isAsciiDigit d = true ∨ d = '.' := by
      intro d hd
      cases s with
      | nil => exact .inr (Option.some.inj hd).symm
      | cons b s =>
        obtain rfl := Option.some.inj hd
        exact .inl (hpositional.digits b (by simp))
    have hpoint : (c :: (s ++ '.' :: fraction)).any (fun c => c == '.' || c == 'e' || c == 'E') = true := by
      simp
    rw [htext, List.cons_append, scalar?_signed hc hs, if_pos hpoint]
    exact hread
  | none =>
    obtain rfl | rfl := infinite_of_parts? hx h
    · decide +kernel
    · decide +kernel

theorem integerText_spec (n : Int) : ∃ (negative : Bool) (k : Nat),
    (toString n).toList = signText negative ++ Nat.toDigits 10 k ∧ (if negative then -(k : Int) else k) = n := by
  cases n with
  | ofNat k => exact ⟨false, k, toList_toString k, rfl⟩
  | negSucc k =>
    have happend : toString (Int.negSucc k) = "-" ++ toString (k + 1) := by rfl
    refine ⟨true, k + 1, ?_, rfl⟩
    rw [happend, String.toList_append, toList_toString]
    rfl

theorem scalar?_integer {n : Int} (h : isInteger n = true) :
    scalar? (toString n).toList = some (integer n) := by
  obtain ⟨negative, k, htext, hk⟩ := integerText_spec n
  have hdigits : ∀ c ∈ Nat.toDigits 10 k, isAsciiDigit c = true := fun c hc =>
    isAsciiDigit_of_mem_toDigits hc
  have hleading : ∀ t, Nat.toDigits 10 k = '0' :: t → t = [] := by
    intro t ht
    obtain rfl := eq_zero_of_head_toDigits (by rw [ht]; rfl)
    exact (List.cons.inj ht).2.symm
  have hvalue := digitsValue_toDigits k
  have hne : Nat.toDigits 10 k ≠ [] := Nat.toDigits_ne_nil
  obtain ⟨c, s, hcs, hc⟩ := exists_digit k
  rw [hcs] at htext hdigits hleading hvalue hne
  have hs : ∀ d ∈ s.head?, isAsciiDigit d = true ∨ d = '.' := fun d hd =>
    .inl (hdigits d (List.mem_cons_of_mem _ (List.mem_of_mem_head? hd)))
  have hplain : (c :: s).any (fun c => c == '.' || c == 'e' || c == 'E') = false := by
    rw [List.any_eq_false]
    intro d hd
    obtain ⟨hpoint, hletter⟩ := digit_plain (hdigits d hd)
    simp_all
  rw [htext, scalar?_signed hc hs, hplain, if_neg Bool.false_ne_true,
    wholeDigits?_digits hne hdigits hleading, Option.bind_some, hvalue, hk, integer?, if_pos h]

end Toml

end PlainSteps
