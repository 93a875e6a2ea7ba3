import PlainSteps.Number.Read
import PlainSteps.Text.Blank

/-!
# Moments in time

* `Timestamp` : a moment of universal time, as seconds since the beginning of 1970.
* `Timestamp.text` : the moment as date and time, with as many digits of the second as are needed,
  in groups of three.
* `Timestamp.read?` : reads that form and others like it: with blanks around its parts, and with an
  offset from universal time.
-/

namespace PlainSteps

open Text

/-- A moment: whole seconds since the beginning of 1970, and nanoseconds. From 1000000000 on, the
nanoseconds belong to a leap second. -/
structure Timestamp where
  seconds : Int
  nanos : Nat
  deriving DecidableEq, Repr, Inhabited

namespace Timestamp

/-! ## Dates -/

/-- The day of a date, counted from the beginning of 1970; years begin in March here, so that the
day added to leap years is the last. -/
def dayNumber (year : Int) (month day : Nat) : Int :=
  let y := if month ≤ 2 then year - 1 else year
  let m : Int := (month + 9) % 12
  365 * y + y.fdiv 4 - y.fdiv 100 + y.fdiv 400 + (153 * m + 2).fdiv 5 + (day : Int) - 1 - 719468

/-- The year, the month and the day with a number. -/
def date (number : Int) : Int × Nat × Nat :=
  let z := number + 719468
  let era := z.fdiv 146097
  let dayOfEra := (z - era * 146097).toNat
  let yearOfEra :=
    (dayOfEra - dayOfEra / 1460 + dayOfEra / 36524 - dayOfEra / 146096) / 365
  let dayOfYear := dayOfEra - (365 * yearOfEra + yearOfEra / 4 - yearOfEra / 100)
  let m := (5 * dayOfYear + 2) / 153
  let day := dayOfYear - (153 * m + 2) / 5 + 1
  let month := if m < 10 then m + 3 else m - 9
  let year := (yearOfEra : Int) + era * 400
  (if month ≤ 2 then year + 1 else year, month, day)

/-- Whether a year has a day more. -/
def isLeapYear (year : Int) : Bool :=
  year.fmod 4 == 0 && (year.fmod 100 != 0 || year.fmod 400 == 0)

def daysInMonth (year : Int) (month : Nat) : Nat :=
  if month == 2 then (if isLeapYear year then 29 else 28)
  else if [4, 6, 9, 11].contains month then 30
  else 31

/-! ## Writing -/

def padded (width n : Nat) : String :=
  let s := toString n
  String.ofList (List.replicate (width - s.length) '0') ++ s

/-- A year: four digits, or a sign and at least four digits for years that have no such form. -/
def yearText (year : Int) : String :=
  if 0 ≤ year && year ≤ 9999 then padded 4 year.toNat
  else (if year < 0 then "-" else "+") ++ padded 4 year.natAbs

/-- The digits of a second after the point, in groups of three. -/
def fractionText (nanos : Nat) : String :=
  if nanos == 0 then ""
  else if nanos % 1000000 == 0 then "." ++ padded 3 (nanos / 1000000)
  else if nanos % 1000 == 0 then "." ++ padded 6 (nanos / 1000)
  else "." ++ padded 9 nanos

def text (t : Timestamp) : String :=
  let (year, month, day) := date (t.seconds.fdiv 86400)
  let second := (t.seconds.fmod 86400).toNat
  let extra := t.nanos / 1000000000
  yearText year ++ "-" ++ padded 2 month ++ "-" ++ padded 2 day ++ "T" ++
    padded 2 (second / 3600) ++ ":" ++ padded 2 (second / 60 % 60) ++ ":" ++
    padded 2 (second % 60 + extra) ++ fractionText (t.nanos % 1000000000) ++ "Z"

/-! ## Reading -/

/-- A number of at most `most` digits. -/
def number? (most : Nat) (s : List Char) : Option (Nat × List Char) :=
  let digits := (s.take most).takeWhile isAsciiDigit
  if digits.isEmpty then none else some (Number.digitsValue digits, s.drop digits.length)

/-- A number of at most two digits after blanks. -/
def pair? (s : List Char) : Option (Nat × List Char) :=
  number? 2 (s.dropWhile isBlank)

/-- A year after blanks: at most four digits, or a sign and any number of digits. -/
def year? (s : List Char) : Option (Int × List Char) :=
  match s.dropWhile isBlank with
  | '-' :: t => (number? t.length t).map fun r => (-(r.1 : Int), r.2)
  | '+' :: t => (number? t.length t).map fun r => ((r.1 : Int), r.2)
  | t => (number? 4 t).map fun r => ((r.1 : Int), r.2)

def mark? (c : Char) (s : List Char) : Option (List Char) :=
  match s.dropWhile isBlank with
  | d :: t => if c == d then some t else none
  | [] => none

/-- The digits of a second after its point, in nanoseconds; more than nine are cut off. -/
def fraction? : List Char → Option (Nat × List Char)
  | '.' :: s =>
    let digits := s.takeWhile isAsciiDigit
    let kept := digits.take 9
    if digits.isEmpty then none
    else some (Number.digitsValue kept * Nat.pow 10 (9 - kept.length), s.drop digits.length)
  | s => some (0, s)

/-- The offset from universal time in seconds: a letter, or hours and minutes with a sign. -/
def offset? (s : List Char) : Option (Int × List Char) :=
  if (s.take 3).map lower == ['u', 't', 'c'] then some (0, s.drop 3)
  else
    match s with
    | [] => none
    | c :: t =>
      if lower c == 'z' then some (0, t)
      else
        let sign : Option Int :=
          if c == '+' then some 1 else if c == '-' || c == '\u2212' then some (-1) else none
        match sign, t with
        | some sign, a :: b :: t =>
          let t := t.dropWhile fun c => c == ':' || isBlank c
          match t with
          | d :: e :: u =>
            if [a, b, d, e].all isAsciiDigit && d ≤ '5' then
              some (sign * (3600 * Number.digitsValue [a, b] + 60 * Number.digitsValue [d, e] : Nat),
                u)
            else none
          | _ => none
        | _, _ => none

def read? (text : String) : Option Timestamp := do
  let (year, s) ← year? text.toList
  let (month, s) ← pair? (← mark? '-' s)
  let (day, s) ← pair? (← mark? '-' s)
  let s ← match s with
    | c :: t => if c == 'T' || c == 't' || c == ' ' then some t else none
    | [] => none
  let (hour, s) ← pair? s
  let (minute, s) ← pair? (← mark? ':' s)
  let (second, s) ← pair? (← mark? ':' s)
  let (nanos, s) ← fraction? s
  let (offset, s) ← offset? (s.dropWhile isBlank)
  if !(s.dropWhile isBlank).isEmpty || month == 0 || 12 < month || day == 0 ||
      daysInMonth year month < day || 24 ≤ hour || 60 ≤ minute || 61 ≤ second ||
      year < -262143 || 262142 < year || 86400 ≤ offset.natAbs then none
  else
    let extra : Nat := if second == 60 then 1 else 0
    let clock : Int := 3600 * hour + 60 * minute + (second - extra : Nat)
    some ⟨86400 * dayNumber year month day + clock - offset, 1000000000 * extra + nanos⟩

/-! ## Arithmetic -/

def after (t : Timestamp) (ms : Nat) : Timestamp :=
  let nanos := t.nanos + ms % 1000 * 1000000
  ⟨t.seconds + ms / 1000 + nanos / 1000000000, nanos % 1000000000⟩

end Timestamp

end PlainSteps
