/-!
# Doubles by their bits

* `Binary64` : a double, given by its 64 bits, so that two of them can be told apart, NaNs included.
* `Binary64.parts?` : a finite double as an exact number: a sign, a mantissa and a binary exponent.
* `Binary64.nearest` : the double nearest to a quotient of naturals, a tie going to the even
  mantissa.
* `Binary64.ofDecimal` : the double nearest to `digits * 10 ^ exponent`.
-/

namespace PlainSteps.Number

/-- A double, given by its bits: the sign, 11 bits of exponent and 52 bits of fraction. -/
structure Binary64 where
  bits : UInt64
  deriving DecidableEq, Repr, Inhabited

/-- The finite number `mantissa * 2 ^ exponent`, negated when `negative`. -/
structure Parts where
  negative : Bool
  mantissa : Nat
  exponent : Int
  deriving DecidableEq, Repr

/-- The quotient `n / d` to the nearest natural, a tie going to the even one. -/
def divNearest (n d : Nat) : Nat :=
  let q := n / d
  let r := n % d
  if 2 * r < d then q
  else if d < 2 * r then q + 1
  else if q % 2 == 0 then q else q + 1

namespace Binary64

def ofFloat (x : Float) : Binary64 := ⟨x.toBits⟩

def toFloat (x : Binary64) : Float := Float.ofBits x.bits

def exponentField (x : Binary64) : Nat := x.bits.toNat / Nat.pow 2 52 % Nat.pow 2 11

def fractionField (x : Binary64) : Nat := x.bits.toNat % Nat.pow 2 52

def isNegative (x : Binary64) : Bool := Nat.pow 2 63 ≤ x.bits.toNat

def isNaN (x : Binary64) : Bool := x.exponentField == 2047 && x.fractionField != 0

def isInfinite (x : Binary64) : Bool := x.exponentField == 2047 && x.fractionField == 0

def negate (x : Binary64) : Binary64 := ⟨x.bits ^^^ 0x8000000000000000⟩

/-- The double, with the other sign if `negative`. -/
def signed (negative : Bool) (x : Binary64) : Binary64 :=
  if negative then x.negate else x

def zero : Binary64 := ⟨0⟩

def infinity : Binary64 := ⟨0x7FF0000000000000⟩

/-- The usual NaN. -/
def nan : Binary64 := ⟨0x7FF8000000000000⟩

/-- Whether two doubles are equal as numbers: the zeros are, and NaN is not even equal to itself. -/
def sameNumber (x y : Binary64) : Bool :=
  !x.isNaN && !y.isNaN &&
    (x.bits == y.bits || (x.bits.toNat % Nat.pow 2 63 == 0 && y.bits.toNat % Nat.pow 2 63 == 0))

/-- The parts of a finite double; infinities and NaN have none. -/
def parts? (x : Binary64) : Option Parts :=
  if x.exponentField == 2047 then none
  else if x.exponentField == 0 then some ⟨x.isNegative, x.fractionField, -1074⟩
  else some ⟨x.isNegative, x.fractionField + Nat.pow 2 52, (x.exponentField : Int) - 1075⟩

/-- The quotient `n / d` in units of `2 ^ e`. -/
def scaled (n d : Nat) (e : Int) : Nat × Nat :=
  if 0 ≤ e then (n, d * Nat.pow 2 e.toNat) else (n * Nat.pow 2 (-e).toNat, d)

/-- The exponent of the last of 53 binary digits of `n / d`. -/
def lastPlace (n d : Nat) : Int :=
  let size : Int := (n.log2 : Int) - (d.log2 : Int)
  let q := scaled n d (size - 53)
  if q.1 < q.2 * Nat.pow 2 53 then size - 53 else size - 52

/-- The bits of `m * 2 ^ place`, where `m` has at most 53 binary digits after a carry; past the largest
double they are those of infinity. -/
def packed (m : Nat) (place : Int) : Nat :=
  let (m, place) := if m = Nat.pow 2 53 then (Nat.pow 2 52, place + 1) else (m, place)
  if m < Nat.pow 2 52 then m
  else if 971 < place then 2047 * Nat.pow 2 52
  else (place + 1075).toNat * Nat.pow 2 52 + (m - Nat.pow 2 52)

/-- The bits of the double nearest to `n / d` for a positive `d`. -/
def nearestBits (n d : Nat) : Nat :=
  if n = 0 then 0
  else
    -- the last place is never below that of the smallest double
    let place := max (lastPlace n d) (-1074)
    let q := scaled n d place
    packed (divNearest q.1 q.2) place

/-- The double nearest to `n / d`. -/
def nearest (n d : Nat) : Binary64 :=
  ⟨UInt64.ofNat (nearestBits n d)⟩

/-- The double nearest to an integer. -/
def ofInt (n : Int) : Binary64 :=
  (nearest n.natAbs 1).signed (n < 0)

/-- The double nearest to `digits * 10 ^ exponent`, where `digits` has `count` decimal digits. A
number beyond all doubles, or far below the smallest, is decided by its size alone. -/
def ofDecimal (digits count : Nat) (exponent : Int) : Binary64 :=
  if digits = 0 then zero
  else if 400 < exponent + count then infinity
  else if exponent + count < -400 then zero
  else if 0 ≤ exponent then nearest (digits * Nat.pow 10 exponent.toNat) 1
  else nearest digits (Nat.pow 10 (-exponent).toNat)

end Binary64

end PlainSteps.Number
