import PlainSteps.Text.Blank

/-!
# Quotation marks

* `isQuoteMark` : straight and typographic quotation marks.
* `unquoted` : a text without one enclosing pair of marks. The two need not be of one kind.
-/

namespace PlainSteps

open Text

def isQuoteMark (c : Char) : Bool :=
  c == '"' || c == '\'' || c == '“' || c == '”' || c == '‘' || c == '’'

/-- What stands between the first and the last character, if both are quotation marks. -/
def betweenMarks? : List Char → Option (List Char)
  | [] => none
  | c :: s =>
    match s.getLast? with
    | none => none
    | some d => if isQuoteMark c && isQuoteMark d then some s.dropLast else none

/-- The trimmed text without one enclosing pair of quotation marks. -/
def unquoted (s : List Char) : List Char :=
  match betweenMarks? (trimmed s) with
  | some inner => trimmed inner
  | none => trimmed s

/-- The trimmed text without one enclosing pair of quotation marks. -/
def unquote (s : String) : String :=
  String.ofList (unquoted s.toList)

@[simp] theorem toList_unquote (s : String) : (unquote s).toList = unquoted s.toList := by
  simp [unquote]

end PlainSteps
