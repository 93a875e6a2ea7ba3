/-!
# Base64

* `Base64.decode` : the bytes that a text in the standard alphabet stands for. The padding is
  required, and bits that belong to no byte must be zero.
* `Base64.Fault` : what can be wrong with a text, and where.

A text is read in blocks of eight characters. Padding may stand in the last block only.
-/

namespace PlainSteps.Base64

/-- What is wrong with a text. Places are counted in bytes. -/
inductive Fault where
  | invalidByte (byte place : Nat)
  /-- One character of the last group of four is left over. -/
  | loneSymbol
  /-- The last character has bits that belong to no byte. -/
  | unusedBits (byte place : Nat)
  | padding
  deriving DecidableEq, Repr

def Fault.message : Fault → String
  | invalidByte b place => "Invalid byte " ++ toString b ++ ", offset " ++ toString place ++ "."
  | loneSymbol => "Encoded text cannot have a 6-bit remainder."
  | unusedBits b place =>
    "Invalid last symbol " ++ toString b ++ ", offset " ++ toString place ++ "."
  | padding => "Invalid padding"

/-- The sign that fills up the last group. -/
def pad : Nat := '='.toNat

/-- The six bits that a byte stands for. -/
def symbol? (b : Nat) : Option Nat :=
  if 65 ≤ b ∧ b ≤ 90 then some (b - 65)
  else if 97 ≤ b ∧ b ≤ 122 then some (b - 97 + 26)
  else if 48 ≤ b ∧ b ≤ 57 then some (b - 48 + 52)
  else if b = 43 then some 62
  else if b = 47 then some 63
  else none

/-- The symbols of bytes from a place on. -/
def symbols (place : Nat) : List Nat → Except Fault (List Nat)
  | [] => .ok []
  | b :: bs =>
    match symbol? b with
    | none => .error (.invalidByte b place)
    | some v => (symbols (place + 1) bs).map (v :: ·)

/-- Checks the padding of the last block from a place in it on: after two symbols of a group at
least, and with nothing after it. `first` is where the padding began. -/
def checkPadding (start i : Nat) (first : Option Nat) : List Nat → Except Fault Unit
  | [] => .ok ()
  | b :: bs =>
    if b = pad then
      if i % 4 < 2 then .error (.invalidByte b (start + first.getD i))
      else checkPadding start (i + 1) (some (first.getD i)) bs
    else
      match first with
      | some j => .error (.invalidByte pad (start + j))
      | none =>
        if (symbol? b).isNone then .error (.invalidByte b (start + i))
        else checkPadding start (i + 1) none bs

/-- The bytes of symbols, four symbols for three bytes. -/
def bytes : List Nat → List UInt8
  | a :: b :: c :: d :: rest =>
    UInt8.ofNat (a * 4 + b / 16) :: UInt8.ofNat (b % 16 * 16 + c / 4) ::
      UInt8.ofNat (c % 4 * 64 + d) :: bytes rest
  | [a, b, c] => [UInt8.ofNat (a * 4 + b / 16), UInt8.ofNat (b % 16 * 16 + c / 4)]
  | [a, b] => [UInt8.ofNat (a * 4 + b / 16)]
  | _ => []

/-- The bits of the last of several symbols that belong to no byte. -/
def unused (vs : List Nat) : Nat :=
  match vs.length % 4, vs.getLast? with
  | 2, some v => v % 16
  | 3, some v => v % 4
  | _, _ => 0

/-- The last block, which begins at a place. -/
def lastBlock (start : Nat) (bs : List Nat) : Except Fault (List Nat) := do
  checkPadding start 0 none bs
  let data := bs.filter (· ≠ pad)
  if bs.length % 4 ≠ 0 then .error .padding
  else
    let vs ← symbols start data
    if unused vs ≠ 0 then
      .error (.unusedBits (data.getLast?.getD 0) (start + data.length - 1))
    else .ok vs

/-- The bytes that a text stands for. -/
def decode (s : String) : Except Fault (List UInt8) := do
  let bs := s.toUTF8.toList.map (·.toNat)
  if bs.length % 4 = 1 then
    match bs.getLast? with
    | some b =>
      if b ≠ pad ∧ (symbol? b).isNone then .error (.invalidByte b (bs.length - 1))
      else .error .loneSymbol
    | none => .error .loneSymbol
  else
    let start := (bs.length - 1) / 8 * 8
    let front ← symbols 0 (bs.take start)
    let last ← lastBlock start (bs.drop start)
    .ok (bytes (front ++ last))

end PlainSteps.Base64
