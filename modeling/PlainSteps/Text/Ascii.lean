/-!
# ASCII letters

Lower case, equality up to case, and the letters and digits of ASCII. A character outside ASCII is
left alone by every function here.
-/

namespace PlainSteps.Text

/-- Lower case of an ASCII letter; every other character is unchanged. -/
def lower (c : Char) : Char :=
  if 'A' ≤ c ∧ c ≤ 'Z' then Char.ofNat (c.toNat + 32) else c

/-- Upper case of an ASCII letter; every other character is unchanged. -/
def upper (c : Char) : Char :=
  if 'a' ≤ c ∧ c ≤ 'z' then Char.ofNat (c.toNat - 32) else c

/-- ASCII letters of a text in lower case. -/
def lowered (s : String) : String :=
  String.ofList (s.toList.map lower)

/-- Equality of two texts up to the case of ASCII letters. -/
def sameIgnoringCase (s t : String) : Bool :=
  s.toList.map lower == t.toList.map lower

/-- A letter of ASCII in either case. -/
def isAsciiLetter (c : Char) : Bool :=
  ('a' ≤ c && c ≤ 'z') || ('A' ≤ c && c ≤ 'Z')

/-- A digit of ASCII. -/
def isAsciiDigit (c : Char) : Bool :=
  '0' ≤ c && c ≤ '9'

/-- A letter or digit of ASCII. -/
def isAsciiAlphanumeric (c : Char) : Bool :=
  isAsciiLetter c || isAsciiDigit c

/-- Whether `s` begins with `start`. -/
def startsWith (start s : List Char) : Bool :=
  start.isPrefixOf s

end PlainSteps.Text
