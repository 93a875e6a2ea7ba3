import PlainSteps.Number.Binary64

/-!
# The fewest digits that read back

* `Interval` : the numbers that round to a given double, as exact fractions.
* `shortest` : the shortest decimal in that interval, and of the shortest the nearest one.

A decimal of `n` digits lies in the interval only if one of the double's two neighbours on the
grid of `n` digits does, so trying the two neighbours for each `n` finds the shortest.
-/

namespace PlainSteps.Number

/-- A decimal `digits * 10 ^ exponent`. -/
structure Decimal where
  digits : Nat
  exponent : Int
  deriving DecidableEq, Repr

/-- The numbers that round to `value / unit`: from `low / unit` to `high / unit`, with the ends
when `closed`. -/
structure Interval where
  low : Nat
  value : Nat
  high : Nat
  unit : Nat
  closed : Bool

/-- The rounding interval of `m * 2 ^ e`. Below a power of two the gap to the next double is half
as wide. -/
def Interval.ofDouble (m : Nat) (e : Int) : Interval :=
  let narrow := m == Nat.pow 2 52 && -1074 < e
  let below := if narrow then 1 else 2
  let shift := e - 2
  if 0 ≤ shift then
    let s := Nat.pow 2 shift.toNat
    ⟨(4 * m - below) * s, 4 * m * s, (4 * m + 2) * s, 1, m % 2 == 0⟩
  else
    ⟨4 * m - below, 4 * m, 4 * m + 2, Nat.pow 2 (-shift).toNat, m % 2 == 0⟩

/-- Whether `n * num / den` lies in the interval. -/
def Interval.holds (i : Interval) (n num den : Nat) : Bool :=
  let x := n * num * i.unit
  let a := i.low * den
  let b := i.high * den
  if i.closed then a ≤ x && x ≤ b else a < x && x < b

/-- The exponent of the first digit plus one: the least `k` with `n / d < 10 ^ k`. -/
def magnitude (n d : Nat) : Int :=
  let below (k : Int) : Bool :=
    if 0 ≤ k then n < d * Nat.pow 10 k.toNat else n * Nat.pow 10 (-k).toNat < d
  -- 1233 / 4096 is a little below the logarithm of two
  let guess : Int := (((n.log2 : Int) - (d.log2 : Int) - 1) * 1233).fdiv 4096
  let rec up : Nat → Int → Int
    | 0, k => k
    | fuel + 1, k => if below k then k else up fuel (k + 1)
  up 4 guess

/-- The nearer neighbour of the interval's value among the decimals of the grid `10 ^ e` that lie
in it. -/
def Interval.onGrid? (i : Interval) (e : Int) : Option Decimal :=
  let num := if 0 ≤ e then Nat.pow 10 e.toNat else 1
  let den := if 0 ≤ e then 1 else Nat.pow 10 (-e).toNat
  let floor := i.value * den / (i.unit * num)
  let lowIn := floor != 0 && i.holds floor num den
  let highIn := i.holds (floor + 1) num den
  -- twice the distance from the lower neighbour, against the width of the grid
  let twice := 2 * (i.value * den - floor * num * i.unit)
  let width := num * i.unit
  let lowNearer := twice < width || (twice == width && floor % 2 == 0)
  match lowIn, highIn with
  | true, true => some ⟨if lowNearer then floor else floor + 1, e⟩
  | true, false => some ⟨floor, e⟩
  | false, true => some ⟨floor + 1, e⟩
  | false, false => none

/-- Tries the grids of more and more digits. -/
def Interval.search (i : Interval) (top : Int) : Nat → Nat → Decimal
  | 0, _ => ⟨0, 0⟩
  | fuel + 1, n =>
    match i.onGrid? (top - n) with
    | some d => d
    | none => search i top fuel (n + 1)

/-- Moves factors of ten from the digits to the exponent. -/
def Decimal.strip : Nat → Decimal → Decimal
  | 0, d => d
  | fuel + 1, d =>
    if d.digits != 0 && d.digits % 10 == 0 then strip fuel ⟨d.digits / 10, d.exponent + 1⟩ else d

/-- The shortest decimal that rounds to `m * 2 ^ e`. -/
def shortest (m : Nat) (e : Int) : Decimal :=
  if m = 0 then ⟨0, 0⟩
  else
    let i := Interval.ofDouble m e
    (i.search (magnitude i.value i.unit) 18 1).strip 20

end PlainSteps.Number
