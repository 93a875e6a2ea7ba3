import PlainSteps.Text.Hidden

/-!
# Display form of a value

* `escaped` : a text between double quotes in which nothing is hidden: quotes and backslashes are
  escaped, line ends and tabs have their letters, and a character that leaves no mark of its own is
  written by its code point.
-/

namespace PlainSteps.Text

/-- Hexadecimal digits of a number in lower case, without leading zeros. -/
def hexText (n : Nat) : List Char :=
  Nat.toDigits 16 n

/-- The code point of a character between braces. -/
def byCodePoint (c : Char) : List Char :=
  '\\' :: 'u' :: '{' :: hexText c.toNat ++ ['}']

/-- One character of the display form. -/
def escapedChar (c : Char) : List Char :=
  if c = '\n' then ['\\', 'n']
  else if c = '\r' then ['\\', 'r']
  else if c = '\t' then ['\\', 't']
  else if c = Char.ofNat 0 then ['\\', '0']
  else if c = '"' then ['\\', '"']
  else if c = '\\' then ['\\', '\\']
  else if joinsPrevious c || isHidden c then byCodePoint c
  else [c]

/-- The display form of a text. -/
def escaped (s : String) : String :=
  String.ofList ('"' :: s.toList.flatMap escapedChar ++ ['"'])

end PlainSteps.Text
