import PlainSteps.Number.Shortest

/-!
# Laying out the digits of a double

* `Layout` : what an output format decides about a number: when an exponent is written, whether a
  whole number keeps `.0`, and the words for what is not finite.
* `plain` : never an exponent, whole numbers bare.
* `withinPlaces` : the rule of data formats for when an exponent is needed.
-/

namespace PlainSteps.Number

/-- How a format writes a double. -/
structure Layout where
  /-- Whether a decimal point at this place is written out with zeros instead of an exponent. -/
  positional : Int → Bool
  /-- What follows a whole number written without exponent. -/
  wholeTail : String
  /-- The sign of a positive exponent. -/
  plusSign : String
  infinity : String
  negativeInfinity : String
  nan : String

/-- `n` zeros. -/
def zeros (n : Nat) : String :=
  String.ofList (List.replicate n '0')

/-- The text of a positive decimal. The point stands after `point` digits. -/
def Layout.decimal (l : Layout) (d : Decimal) : String :=
  let text := toString d.digits
  let count := text.length
  let point : Int := count + d.exponent
  if l.positional point then
    if 0 ≤ d.exponent then text ++ zeros d.exponent.toNat ++ l.wholeTail
    else if 0 < point then
      String.ofList (text.toList.take point.toNat) ++ "." ++
        String.ofList (text.toList.drop point.toNat)
    else "0." ++ zeros (-point).toNat ++ text
  else
    let head := String.ofList (text.toList.take 1)
    let rest := String.ofList (text.toList.drop 1)
    let mantissa := if rest.isEmpty then head else head ++ "." ++ rest
    let e := point - 1
    mantissa ++ "e" ++ (if e < 0 then "-" else l.plusSign) ++ toString e.natAbs

def Layout.text (l : Layout) (x : Binary64) : String :=
  match x.parts? with
  | some d =>
    let body :=
      if d.mantissa = 0 then "0" ++ l.wholeTail else l.decimal (shortest d.mantissa d.exponent)
    if d.negative then "-" ++ body else body
  | none =>
    if x.isNaN then l.nan else if x.isNegative then l.negativeInfinity else l.infinity

/-- Running text: all digits written out. -/
def plain : Layout where
  positional _ := true
  wholeTail := ""
  plusSign := ""
  infinity := "inf"
  negativeInfinity := "-inf"
  nan := "NaN"

/-- Data formats write a number out when its point lies within 16 places after the first digit, or
up to five places before it. -/
def withinPlaces (point : Int) : Bool :=
  -5 < point && point ≤ 16

end PlainSteps.Number
