import PlainSteps.Proofs.DecimalDigits

/-!
# Moments are read as they are written

`Timestamp.read?_text`: a moment of the years that have a calendar, with a leap second only at the end of
a minute, is read back from its text.

The date of a day is one of the calendar (`date_valid`) and has the number of that day (`dayNumber_date`): in
the 400 years after which the calendar repeats, a year begins after `365 * y + y / 4 - y / 100` days
(`year_of_day`), and the month follows from the day of the year (`month_of_day`). The parts of the text are
read one after the other, each up to the first character that is no digit or to its full width
(`number?_digits`).
-/

namespace PlainSteps.Timestamp

open Text

/-! ## Days -/

theorem year_of_day {d y : Nat} (h : d < 146097)
    (hy : y = (d - d / 1460 + d / 36524 - d / 146096) / 365) :
    y < 400 ∧ 365 * y + y / 4 - y / 100 ≤ d ∧ d - (365 * y + y / 4 - y / 100) ≤ 365 ∧
      (d - (365 * y + y / 4 - y / 100) = 365 →
        (y + 1) % 4 = 0 ∧ ((y + 1) % 100 ≠ 0 ∨ (y + 1) % 400 = 0)) := by
  by_cases hlast : d = 146096
  · subst hlast
    subst hy
    decide
  · have hera : d / 146096 = 0 := by omega
    obtain ⟨c, hc⟩ : ∃ c, d / 36524 = c := ⟨_, rfl⟩
    obtain ⟨i, hi⟩ : ∃ i, d / 1460 = i := ⟨_, rfl⟩
    obtain ⟨b, hb⟩ : ∃ b, y / 4 = b := ⟨_, rfl⟩
    rw [hera, hc, hi, Nat.sub_zero] at hy
    -- the century and the fours of years are those that the quotients of the days say, or nearly
    obtain ⟨hcentury, hlow, hhigh⟩ : y / 100 = c ∧ b ≤ i ∧ i ≤ b + 1 := by
      have hcases : c = 0 ∨ c = 1 ∨ c = 2 ∨ c = 3 := by omega
      rcases hcases with rfl | rfl | rfl | rfl
      all_goals exact ⟨by omega, by omega, by omega⟩
    rw [hcentury, hb]
    refine ⟨by omega, by omega, by omega, fun hleap => ?_⟩
    have hfourth : y = 4 * b + 3 := by omega
    refine ⟨by omega, .inl fun hend => ?_⟩
    have hyear : y = 100 * c + 99 := by omega
    omega

theorem month_of_day : ∀ d : Fin 366,
    let m := (5 * d.val + 2) / 153
    let day := d - (153 * m + 2) / 5 + 1
    let month := if m < 10 then m + 3 else m - 9
    1 ≤ month ∧ month ≤ 12 ∧ (month + 9) % 12 = m ∧ (153 * m + 2) / 5 + day - 1 = d.val ∧ 1 ≤ day ∧
      (month = 2 → day ≤ 29 ∧ (day = 29 → d.val = 365)) ∧
      (month ≠ 2 → day ≤ if [4, 6, 9, 11].contains month then 30 else 31) := by
  decide +kernel

theorem isLeapYear_of_era {era : Int} {y : Nat}
    (h : (y + 1) % 4 = 0 ∧ ((y + 1) % 100 ≠ 0 ∨ (y + 1) % 400 = 0)) :
    isLeapYear (y + era * 400 + 1) = true := by
  have hmod : ∀ {a : Int} {k : Int}, 0 ≤ k → a.fmod k = a % k := fun hk => Int.fmod_eq_emod_of_nonneg _ hk
  rw [isLeapYear, hmod (by decide), hmod (by decide), hmod (by decide)]
  simp only [Bool.and_eq_true, Bool.or_eq_true, beq_iff_eq, bne_iff_ne]
  omega

/-- The date of a day: the day `n` of a year that begins in March, the year `y` of an era of 400. -/
theorem date_parts {number year : Int} {month day : Nat} (h : date number = (year, month, day)) :
    ∃ (era : Int) (y n : Nat), number + 719468 = era * 146097 + (365 * y + y / 4 - y / 100 : Nat) + n ∧
      y < 400 ∧ n ≤ 365 ∧
      (n = 365 → (y + 1) % 4 = 0 ∧ ((y + 1) % 100 ≠ 0 ∨ (y + 1) % 400 = 0)) ∧
      (if (5 * n + 2) / 153 < 10 then (5 * n + 2) / 153 + 3 else (5 * n + 2) / 153 - 9) = month ∧
      n - (153 * ((5 * n + 2) / 153) + 2) / 5 + 1 = day ∧
      (if month ≤ 2 then (y : Int) + era * 400 + 1 else (y : Int) + era * 400) = year := by
  obtain ⟨era, hera⟩ : ∃ era, (number + 719468).fdiv 146097 = era := ⟨_, rfl⟩
  obtain ⟨d, hd⟩ : ∃ d, (number + 719468 - era * 146097).toNat = d := ⟨_, rfl⟩
  obtain ⟨hdays, hnumber⟩ : d < 146097 ∧ number + 719468 = era * 146097 + d := by
    rw [Int.fdiv_eq_ediv_of_nonneg _ (by decide)] at hera
    omega
  obtain ⟨y, hy⟩ : ∃ y, (d - d / 1460 + d / 36524 - d / 146096) / 365 = y := ⟨_, rfl⟩
  obtain ⟨hy400, hbegin, hlength, hleap⟩ := year_of_day hdays hy.symm
  obtain ⟨n, hn⟩ : ∃ n, d - (365 * y + y / 4 - y / 100) = n := ⟨_, rfl⟩
  simp only [date, hera, hd, hy, hn, Prod.mk.injEq] at h
  obtain ⟨hyear, hmonth, hday⟩ := h
  rw [hmonth] at hyear
  rw [hn] at hlength hleap
  refine ⟨era, y, n, ?_, hy400, hlength, hleap, hmonth, hday, hyear⟩
  rw [hnumber, ← hn, Int.add_assoc, ← Int.natCast_add, Nat.add_sub_cancel' hbegin]

theorem date_valid {number year : Int} {month day : Nat} (h : date number = (year, month, day)) :
    1 ≤ month ∧ month ≤ 12 ∧ 1 ≤ day ∧ day ≤ daysInMonth year month := by
  obtain ⟨era, y, n, -, -, hlength, hleap, hmonth, hday, hyear⟩ := date_parts h
  obtain ⟨h1, h12, -, -, hday1, hfebruary, hother⟩ := month_of_day ⟨n, by omega⟩
  simp only [hmonth, hday] at h1 h12 hday1 hfebruary hother
  refine ⟨h1, h12, hday1, ?_⟩
  rw [daysInMonth]
  by_cases hmonth2 : month = 2
  · obtain ⟨hle, hlast⟩ := hfebruary hmonth2
    rw [if_pos (by simp [hmonth2])]
    rw [if_pos (by omega)] at hyear
    by_cases h29 : day = 29
    · rw [← hyear, if_pos (isLeapYear_of_era (hleap (hlast h29)))]
      omega
    · split <;> omega
  · rw [if_neg (by simpa using hmonth2)]
    exact hother hmonth2

theorem dayNumber_date {number year : Int} {month day : Nat} (h : date number = (year, month, day)) :
    dayNumber year month day = number := by
  obtain ⟨era, y, n, hnumber, hy400, hlength, -, hmonth, hday, hyear⟩ := date_parts h
  obtain ⟨-, -, hm, hsum, -, -, -⟩ := month_of_day ⟨n, by omega⟩
  simp only [hmonth, hday] at hm hsum
  have hdiv : ∀ {a : Int} {k : Int}, 0 ≤ k → a.fdiv k = a / k := fun hk => Int.fdiv_eq_ediv_of_nonneg _ hk
  have hmint : ((month : Int) + 9) % 12 = ((5 * n + 2) / 153 : Nat) := by omega
  have hstart : (if month ≤ 2 then year - 1 else year) = (y : Int) + era * 400 := by
    split at hyear <;> omega
  have hfours : ((y : Int) + era * 400) / 4 = (y / 4 : Nat) + era * 100 := by omega
  have hcenturies : ((y : Int) + era * 400) / 100 = (y / 100 : Nat) + era * 4 := by omega
  have heras : ((y : Int) + era * 400) / 400 = era := by omega
  have hdays : (153 * (((5 * n + 2) / 153 : Nat) : Int) + 2) / 5 + day - 1 = n := by omega
  rw [dayNumber]
  simp only [hstart, hmint]
  rw [hdiv (by decide), hdiv (by decide), hdiv (by decide), hdiv (by decide), hfours, hcenturies, heras]
  clear hyear hmonth hday hm hsum hmint hstart hfours hcenturies heras
  omega

/-! ## Parts of the text -/

theorem not_blank_of_digit {c : Char} (h : isAsciiDigit c = true) : isBlank c = false := by
  have hplain := Number.all_digits (p := fun c => !isBlank c) (by decide) h
  simpa using hplain

theorem number?_digits {most : Nat} {ds s : List Char} (hne : ds ≠ [])
    (hdigits : ∀ c ∈ ds, isAsciiDigit c = true) (hlength : ds.length ≤ most)
    (hend : ds.length = most ∨ ∀ c ∈ s.head?, isAsciiDigit c = false) :
    number? most (ds ++ s) = some (Number.digitsValue ds, s) := by
  have hrest : (s.take (most - ds.length)).takeWhile isAsciiDigit = [] := by
    rcases hend with heq | hhead
    · rw [heq, Nat.sub_self, List.take_zero, List.takeWhile_nil]
    · cases s with
      | nil => rw [List.take_nil, List.takeWhile_nil]
      | cons c s =>
        cases most - ds.length with
        | zero => rw [List.take_zero, List.takeWhile_nil]
        | succ k => rw [List.take_succ_cons, List.takeWhile_cons_of_neg (by simp [hhead c rfl])]
  have htake : ((ds ++ s).take most).takeWhile isAsciiDigit = ds := by
    rw [List.take_append, List.take_of_length_le hlength, List.takeWhile_append_of_pos hdigits, hrest,
      List.append_nil]
  rw [number?, htake]
  simp [hne]

theorem pair?_padded {n : Nat} (h : n < 100) (s : List Char) :
    pair? ((padded 2 n).toList ++ s) = some (n, s) := by
  have hlength := length_padded (by decide : 0 < 2) (n := n) h
  have hskip : ((padded 2 n).toList ++ s).dropWhile isBlank = (padded 2 n).toList ++ s := by
    obtain ⟨c, t, hct, hc⟩ := exists_digit_padded 2 n
    rw [hct, List.cons_append, List.dropWhile_cons_of_neg (by simp [not_blank_of_digit hc])]
  rw [pair?, hskip, number?_digits (padded_ne_nil 2 n) (fun _ => isAsciiDigit_of_mem_padded)
    (Nat.le_of_eq hlength) (.inl hlength), digitsValue_padded]

theorem dash_not_digit (s : List Char) : ∀ c ∈ ('-' :: s).head?, isAsciiDigit c = false := by
  intro c hc
  obtain rfl : '-' = c := by simpa using hc
  rfl

theorem number?_year (n : Nat) (s : List Char) : number? ((padded 4 n).toList ++ '-' :: s).length
    ((padded 4 n).toList ++ '-' :: s) = some (n, '-' :: s) := by
  rw [number?_digits (padded_ne_nil 4 n) (fun _ => isAsciiDigit_of_mem_padded) (by simp)
    (.inr (dash_not_digit s)), digitsValue_padded]

theorem year?_digit {c : Char} (hc : isAsciiDigit c = true) (s : List Char) :
    year? (c :: s) = (number? 4 (c :: s)).map fun r => ((r.1 : Int), r.2) := by
  have hall := Number.digit_cases hc
  simp only [List.mem_cons, List.not_mem_nil, or_false] at hall
  rcases hall with rfl | rfl | rfl | rfl | rfl | rfl | rfl | rfl | rfl | rfl
  all_goals rfl

theorem year?_padded {n : Nat} (h : n ≤ 9999) (s : List Char) :
    year? ((padded 4 n).toList ++ '-' :: s) = some ((n : Int), '-' :: s) := by
  have hlength := length_padded (by decide : 0 < 4) (Nat.lt_succ_of_le h)
  have hnumber : number? 4 ((padded 4 n).toList ++ '-' :: s) = some (n, '-' :: s) := by
    rw [number?_digits (padded_ne_nil 4 n) (fun _ => isAsciiDigit_of_mem_padded) (Nat.le_of_eq hlength)
      (.inl hlength), digitsValue_padded]
  obtain ⟨c, t, hct, hc⟩ := exists_digit_padded 4 n
  rw [hct, List.cons_append] at hnumber ⊢
  rw [year?_digit hc, hnumber, Option.map_some]

theorem year?_yearText (year : Int) (s : List Char) :
    year? ((yearText year).toList ++ '-' :: s) = some (year, '-' :: s) := by
  rw [yearText]
  by_cases hshort : (decide (0 ≤ year) && decide (year ≤ 9999)) = true
  · obtain ⟨hlow, hhigh⟩ : 0 ≤ year ∧ year ≤ 9999 := by simpa using hshort
    rw [if_pos hshort, year?_padded (by omega), Int.toNat_of_nonneg hlow]
  rw [if_neg hshort]
  by_cases hneg : year < 0
  · have hyear : -(year.natAbs : Int) = year := by omega
    have htext : ((if year < 0 then "-" else "+") ++ padded 4 year.natAbs).toList ++ '-' :: s =
        '-' :: ((padded 4 year.natAbs).toList ++ '-' :: s) := by
      simp [if_pos hneg, String.toList_append]
    rw [htext, year?, List.dropWhile_cons_of_neg (by decide)]
    simp only [number?_year, Option.map_some, hyear]
  · have hyear : (year.natAbs : Int) = year := by omega
    have htext : ((if year < 0 then "-" else "+") ++ padded 4 year.natAbs).toList ++ '-' :: s =
        '+' :: ((padded 4 year.natAbs).toList ++ '-' :: s) := by
      simp [if_neg hneg, String.toList_append]
    rw [htext, year?, List.dropWhile_cons_of_neg (by decide)]
    simp only [number?_year, Option.map_some, hyear]

theorem fraction?_digits {k n : Nat} (hk : 0 < k) (hk9 : k ≤ 9) (h : n < Nat.pow 10 k) (s : List Char)
    (hs : ∀ c ∈ s.head?, isAsciiDigit c = false) :
    fraction? ('.' :: ((padded k n).toList ++ s)) = some (n * Nat.pow 10 (9 - k), s) := by
  have hlength := length_padded hk h
  have hrest : s.takeWhile isAsciiDigit = [] := by
    cases s with
    | nil => rfl
    | cons c s => rw [List.takeWhile_cons_of_neg (by simp [hs c rfl])]
  have htake : ((padded k n).toList ++ s).takeWhile isAsciiDigit = (padded k n).toList := by
    rw [List.takeWhile_append_of_pos fun _ => isAsciiDigit_of_mem_padded, hrest, List.append_nil]
  have hnine : ((padded k n).toList).take 9 = (padded k n).toList :=
    List.take_of_length_le (by omega)
  have hne : ¬(padded k n).toList.isEmpty = true := by simpa using padded_ne_nil k n
  simp only [fraction?, htake, hnine, hlength, digitsValue_padded]
  rw [if_neg hne, List.drop_left' hlength]

theorem fraction?_fractionText {nanos : Nat} (h : nanos < 1000000000) (s : List Char) :
    fraction? ((fractionText nanos).toList ++ 'Z' :: s) = some (nanos, 'Z' :: s) := by
  have hZ : ∀ c ∈ ('Z' :: s).head?, isAsciiDigit c = false := by
    intro c hc
    obtain rfl : 'Z' = c := by simpa using hc
    rfl
  have hpoint : ∀ (k n : Nat), ("." ++ padded k n).toList ++ 'Z' :: s =
      '.' :: ((padded k n).toList ++ 'Z' :: s) := by
    intro k n
    simp [String.toList_append]
  rw [fractionText]
  by_cases hzero : nanos = 0
  · subst hzero
    rfl
  rw [if_neg (by simpa using hzero)]
  by_cases hmillis : nanos % 1000000 = 0
  · have hfits : nanos / 1000000 < 1000 := by omega
    have hvalue : nanos / 1000000 * 1000000 = nanos := by omega
    rw [if_pos (by simpa using hmillis), hpoint, fraction?_digits (by decide) (by decide) hfits _ hZ]
    exact congrArg (fun n => some (n, 'Z' :: s)) hvalue
  rw [if_neg (by simpa using hmillis)]
  by_cases hmicros : nanos % 1000 = 0
  · have hfits : nanos / 1000 < 1000000 := by omega
    have hvalue : nanos / 1000 * 1000 = nanos := by omega
    rw [if_pos (by simpa using hmicros), hpoint, fraction?_digits (by decide) (by decide) hfits _ hZ]
    exact congrArg (fun n => some (n, 'Z' :: s)) hvalue
  · rw [if_neg (by simpa using hmicros), hpoint, fraction?_digits (by decide) (by decide) h _ hZ]
    exact congrArg (fun n => some (n, 'Z' :: s)) (Nat.mul_one nanos)

theorem mark?_self {c : Char} (h : isBlank c = false) (s : List Char) : mark? c (c :: s) = some s := by
  rw [mark?, List.dropWhile_cons_of_neg (by simp [h])]
  simp

/-! ## Moments -/

/-- A moment that can be told: its year is one of the calendar, and there are leap seconds at the end of a
minute only. -/
structure Representable (t : Timestamp) : Prop where
  year_ge : -262143 ≤ (date (t.seconds.fdiv 86400)).1
  year_le : (date (t.seconds.fdiv 86400)).1 ≤ 262142
  nanos : t.nanos < 1000000000 ∨ (t.nanos < 2000000000 ∧ t.seconds.fmod 60 = 59)

instance (t : Timestamp) : Decidable t.Representable :=
  decidable_of_iff (-262143 ≤ (date (t.seconds.fdiv 86400)).1 ∧ (date (t.seconds.fdiv 86400)).1 ≤ 262142 ∧
      (t.nanos < 1000000000 ∨ (t.nanos < 2000000000 ∧ t.seconds.fmod 60 = 59)))
    ⟨fun ⟨hge, hle, hnanos⟩ => ⟨hge, hle, hnanos⟩, fun h => ⟨h.year_ge, h.year_le, h.nanos⟩⟩

/-- A moment is read back from its text. -/
theorem read?_text {t : Timestamp} (h : t.Representable) : read? t.text = some t := by
  obtain ⟨year, month, day, hdate⟩ : ∃ year month day, date (t.seconds.fdiv 86400) = (year, month, day) :=
    ⟨_, _, _, rfl⟩
  obtain ⟨second, hsecond⟩ : ∃ s, (t.seconds.fmod 86400).toNat = s := ⟨_, rfl⟩
  obtain ⟨extra, hextra⟩ : ∃ e, t.nanos / 1000000000 = e := ⟨_, rfl⟩
  obtain ⟨hge, hle, hnanos⟩ := h
  rw [hdate] at hge hle
  obtain ⟨hmonth, hmonth12, hday, hdays⟩ := date_valid hdate
  have hnumber := dayNumber_date hdate
  have hday31 : daysInMonth year month ≤ 31 := by
    rw [daysInMonth]
    split
    · split <;> omega
    · split <;> omega
  have hsecondInt : (second : Int) = t.seconds.fmod 86400 := by
    have hnonneg := Int.fmod_nonneg_of_pos t.seconds (by decide : (0 : Int) < 86400)
    omega
  have hclock : second < 86400 := by
    have hlt := Int.fmod_lt_of_pos t.seconds (by decide : (0 : Int) < 86400)
    omega
  have hsplit : 86400 * t.seconds.fdiv 86400 + t.seconds.fmod 86400 = t.seconds := Int.mul_fdiv_add_fmod _ _
  have hleap : extra = 0 ∨ (extra = 1 ∧ second % 60 = 59) := by
    rcases hnanos with hnanos | ⟨hnanos, hminute⟩
    · exact .inl (by omega)
    · rw [Int.fmod_eq_emod_of_nonneg _ (by decide)] at hminute hsecondInt
      omega
  have htext : t.text.toList = (yearText year).toList ++ '-' :: ((padded 2 month).toList ++
      '-' :: ((padded 2 day).toList ++ 'T' :: ((padded 2 (second / 3600)).toList ++
      ':' :: ((padded 2 (second / 60 % 60)).toList ++ ':' :: ((padded 2 (second % 60 + extra)).toList ++
      ((fractionText (t.nanos % 1000000000)).toList ++ ['Z'])))))) := by
    simp [text, hdate, hsecond, hextra, String.toList_append]
  have hdash := mark?_self (c := '-') rfl
  have hcolon := mark?_self (c := ':') rfl
  have hoffset : offset? (['Z'].dropWhile isBlank) = some (0, []) := rfl
  rw [read?, htext]
  -- the parts are taken off one after the other
  rw [year?_yearText]
  dsimp only [Option.bind_eq_bind, Option.bind_some]
  rw [hdash]
  dsimp only [Option.bind_some]
  rw [pair?_padded (by omega : month < 100)]
  dsimp only [Option.bind_some]
  rw [hdash]
  dsimp only [Option.bind_some]
  rw [pair?_padded (by omega : day < 100)]
  dsimp only [Option.bind_some]
  rw [if_pos (by rfl), pair?_padded (by omega : second / 3600 < 100)]
  dsimp only [Option.bind_some]
  rw [hcolon]
  dsimp only [Option.bind_some]
  rw [pair?_padded (by omega : second / 60 % 60 < 100)]
  dsimp only [Option.bind_some]
  rw [hcolon]
  dsimp only [Option.bind_some]
  rw [pair?_padded (by omega : second % 60 + extra < 100)]
  dsimp only [Option.bind_some]
  rw [fraction?_fractionText (by omega : t.nanos % 1000000000 < 1000000000)]
  dsimp only [Option.bind_some]
  rw [hoffset]
  dsimp only [Option.bind_some]
  rw [if_neg]
  · have hextra' : (if (second % 60 + extra == 60) = true then 1 else 0) = extra := by
      rcases hleap with rfl | ⟨rfl, hminute⟩
      · rw [if_neg]
        simp only [beq_iff_eq]
        omega
      · rw [hminute]
        rfl
    have hseconds : 86400 * dayNumber year month day + (3600 * ((second / 3600 : Nat) : Int) +
        60 * ((second / 60 % 60 : Nat) : Int) + ((second % 60 + extra - extra : Nat) : Int)) - 0 =
        t.seconds := by
      rw [hnumber]
      omega
    have hnanosSum : 1000000000 * extra + t.nanos % 1000000000 = t.nanos := by omega
    rw [hextra', hseconds, hnanosSum]
  · simp
    omega

end PlainSteps.Timestamp
