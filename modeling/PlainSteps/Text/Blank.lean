/-!
# Blank characters

* `isBlank` : the 25 code points of the Unicode property `White_Space`.
* `trimmed` : a text without the blanks at its ends.
* `words` : the maximal runs of other characters.

The functions are on `List Char`; `trim` and `wordsOf` are the same on `String`.
-/

namespace PlainSteps.Text

/-- A code point of the Unicode property `White_Space`. -/
def isBlank (c : Char) : Bool :=
  let n := c.toNat
  (9 ≤ n && n ≤ 13) || n == 32 || n == 0x85 || n == 0xA0 || n == 0x1680 ||
    (0x2000 ≤ n && n ≤ 0x200A) || n == 0x2028 || n == 0x2029 || n == 0x202F || n == 0x205F ||
    n == 0x3000

/-- The text without the characters at its end that satisfy `p`. -/
def dropEndWhile (p : Char → Bool) (s : List Char) : List Char :=
  (s.reverse.dropWhile p).reverse

/-- The text without the blanks at either end. -/
def trimmed (s : List Char) : List Char :=
  dropEndWhile isBlank (s.dropWhile isBlank)

/-- The text without the blanks at either end. -/
def trim (s : String) : String :=
  String.ofList (trimmed s.toList)

/-- The pieces between the characters that satisfy `p`, empty pieces included. -/
def piecesBy (p : Char → Bool) : List Char → List (List Char)
  | [] => [[]]
  | c :: s =>
    if p c then [] :: piecesBy p s
    else match piecesBy p s with
      | [] => [[c]]
      | w :: ws => (c :: w) :: ws

/-- The maximal runs of characters that are not blank, in order. -/
def words (s : List Char) : List (List Char) :=
  (piecesBy isBlank s).filter (fun w => !w.isEmpty)

/-- The maximal runs of characters that are not blank, in order. -/
def wordsOf (s : String) : List String :=
  (words s.toList).map String.ofList

/-! ## Trimming -/

theorem dropEndWhile_append_of_not {p : Char → Bool} {c : Char} (s : List Char)
    (h : p c = false) : dropEndWhile p (s ++ [c]) = s ++ [c] := by
  simp [dropEndWhile, h]

theorem dropEndWhile_append_of {p : Char → Bool} {c : Char} (s : List Char) (h : p c = true) :
    dropEndWhile p (s ++ [c]) = dropEndWhile p s := by
  simp [dropEndWhile, h]

@[simp] theorem trimmed_nil : trimmed [] = [] := rfl

@[simp] theorem toList_trim (s : String) : (trim s).toList = trimmed s.toList := by
  simp [trim]

end PlainSteps.Text
