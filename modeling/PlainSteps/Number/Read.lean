import PlainSteps.Number.Binary64
import PlainSteps.Text.Ascii

/-!
# Reading decimals

* `digitsValue` : the value of a run of decimal digits.
* `readPlain?` : digits with an optional fraction, as they stand in a sentence.
-/

namespace PlainSteps.Number

open PlainSteps.Text

/-- The value of a run of decimal digits, after the value `n` of those read before. -/
def digitsFrom : Nat → List Char → Nat
  | n, [] => n
  | n, c :: s => digitsFrom (10 * n + (c.toNat - '0'.toNat)) s

/-- The value of a run of decimal digits. -/
def digitsValue (s : List Char) : Nat :=
  digitsFrom 0 s

/-- The double nearest to `whole.fraction * 10 ^ exponent`, both given by their digits. -/
def ofParts (whole fraction : List Char) (exponent : Int) : Binary64 :=
  let digits := (whole ++ fraction).dropWhile (· == '0')
  Binary64.ofDecimal (digitsValue digits) digits.length (exponent - fraction.length)

/-- Digits with an optional point and fraction; only digits of ASCII have a value. -/
def readPlain? (s : List Char) : Option Binary64 :=
  let whole := s.takeWhile (· != '.')
  let fraction := (s.dropWhile (· != '.')).drop 1
  if whole.all isAsciiDigit && fraction.all isAsciiDigit then some (ofParts whole fraction 0)
  else none

end PlainSteps.Number
