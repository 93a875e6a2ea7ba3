/-!
# Sets of code points

* `CodeSet` : a set of code points, written as the increasing list of the points where membership
  changes, starting outside the set.
* `CodeSet.holds` : membership, decided point by point (`within_of_lt`, `within_of_le`).
-/

namespace PlainSteps.Text

/-- The code points at which membership changes, in increasing order; before the first of them a
code point is outside. -/
structure CodeSet where
  changes : List Nat

namespace CodeSet

/-- Whether `n` lies in the set with the given change points. -/
def within : List Nat → Nat → Bool
  | [], _ => false
  | b :: bs, n => if n < b then false else !within bs n

/-- Membership of a character. -/
def holds (s : CodeSet) (c : Char) : Bool :=
  within s.changes c.toNat

theorem within_of_lt {b n : Nat} (bs : List Nat) (h : n < b) : within (b :: bs) n = false := by
  simp [within, h]

theorem within_of_le {b n : Nat} (bs : List Nat) (h : b ≤ n) :
    within (b :: bs) n = !within bs n := by
  simp [within, Nat.not_lt.2 h]

end CodeSet

end PlainSteps.Text
