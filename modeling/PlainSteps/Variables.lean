import PlainSteps.Text.Blank
import PlainSteps.Text.Ascii

/-!
# Variables

* `Variables` : the texts stored so far, each under a name.
* `Variables.set` and `Variables.get?` : a stored text is trimmed, and the last one counts.
* `Variables.substitute` : puts the stored text in place of each name between braces. The text put
  in is not read again, and a name that is not bound stays as it stands.
-/

namespace PlainSteps

open Text

/-- A first character of a variable's name. -/
def startsName (c : Char) : Bool :=
  isAsciiLetter c || c == '_'

/-- A later character of a variable's name. -/
def continuesName (c : Char) : Bool :=
  isAsciiAlphanumeric c || c == '_' || c == '.' || c == '-'

/-- Whether a text is the name of a variable. -/
def isName : List Char → Bool
  | [] => false
  | c :: s => startsName c && s.all continuesName

/-- The stored texts, each name once. -/
structure Variables where
  entries : List (String × String)
  deriving DecidableEq, Repr

namespace Variables

def empty : Variables := ⟨[]⟩

def get? (vars : Variables) (name : String) : Option String :=
  (vars.entries.find? (·.1 == name)).map (·.2)

/-- Stores the trimmed text under a name, in place of any text stored there before. -/
def set (vars : Variables) (name value : String) : Variables :=
  ⟨(name, trim value) :: vars.entries.filter (·.1 != name)⟩

def size (vars : Variables) : Nat :=
  vars.entries.length

theorem get?_empty (name : String) : empty.get? name = none := rfl

theorem get?_set_self (vars : Variables) (name value : String) :
    (vars.set name value).get? name = some (trim value) := by
  simp [set, get?]

theorem get?_set_of_ne (vars : Variables) {name other : String} (value : String)
    (h : other ≠ name) : (vars.set name value).get? other = vars.get? other := by
  have h' : (name == other) = false := by simp [Ne.symm h]
  simp only [set, get?, List.find?_cons, h', List.find?_filter]
  congr 2
  funext e
  by_cases he : e.1 = other
  · simp [he, h]
  · simp [he]

/-! ## Substitution -/

/-- The name in a placeholder that begins just after its opening brace, and what follows the
closing brace. -/
def placeholder? (s : List Char) : Option (List Char × List Char) :=
  let name := s.takeWhile continuesName
  match s.drop name.length with
  | '}' :: rest => if isName name then some (name, rest) else none
  | _ => none

theorem length_of_placeholder? {s name rest : List Char}
    (h : placeholder? s = some (name, rest)) : rest.length < s.length := by
  simp only [placeholder?] at h
  split at h
  · rename_i r hd
    split at h
    · simp only [Option.some.injEq, Prod.mk.injEq] at h
      have hl := congrArg List.length hd
      simp only [List.length_drop, List.length_cons, h.2] at hl
      omega
    · simp at h
  · simp at h

/-- The text with every bound placeholder replaced, from left to right. -/
def substituteChars (vars : Variables) (s : List Char) : List Char :=
  match s with
  | [] => []
  | '{' :: t =>
    match h : placeholder? t with
    | some (name, rest) =>
      have := length_of_placeholder? h
      (match vars.get? (String.ofList name) with
        | some value => value.toList
        | none => '{' :: name ++ ['}']) ++ vars.substituteChars rest
    | none => '{' :: vars.substituteChars t
  | c :: t => c :: vars.substituteChars t
termination_by s.length
decreasing_by all_goals simp_all <;> omega

/-- The text with every bound placeholder replaced. -/
def substitute (vars : Variables) (text : String) : String :=
  String.ofList (vars.substituteChars text.toList)

end Variables

end PlainSteps
