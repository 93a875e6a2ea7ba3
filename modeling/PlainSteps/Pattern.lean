/-!
# Patterns over a text

* `Pattern κ` : what a piece of text may look like; parts of it carry labels of type `κ`.
* `Pattern.ways` : all ways to read a pattern at a place, the preferred one first.
* `Pattern.first` : the preferred way on which what follows succeeds; `first_eq_findSome` says
  that it is the first success among `ways`.
* `Pattern.match?` reads at the start of a text and `Pattern.find?` at the earliest place.

Only single characters are repeated, so reading is structural in the pattern and in the text.
-/

namespace PlainSteps

/-- A place in a text: what stands before it, nearest first, and what stands after it. -/
structure Place where
  before : List Char
  after : List Char
  deriving DecidableEq, Repr

def Place.start (s : List Char) : Place := ⟨[], s⟩

/-- The text between two places of one text. -/
def Place.upTo (p q : Place) : List Char :=
  (q.before.take (q.before.length - p.before.length)).reverse

/-- What a piece of text may look like. -/
inductive Pattern (κ : Type) where
  /-- Nothing at all. -/
  | nothing
  /-- One character that satisfies a test. -/
  | one (accepts : Char → Bool)
  /-- As many characters that satisfy a test as the rest allows. -/
  | many (accepts : Char → Bool)
  /-- As few characters that satisfy a test as the rest allows. -/
  | few (accepts : Char → Bool)
  /-- The first pattern and then the second. -/
  | both (p q : Pattern κ)
  /-- The first pattern or, failing that, the second. -/
  | either (p q : Pattern κ)
  /-- The start of the text. -/
  | textStart
  /-- The end of the text. -/
  | textEnd
  /-- A place between a character that satisfies the test and one that does not, the ends of the
  text counting as not. -/
  | edge (inside : Char → Bool)
  /-- A pattern whose text is kept under a label. -/
  | part (label : κ) (p : Pattern κ)

namespace Pattern

variable {κ : Type} {α : Type}

/-- What was read under each label: where it starts and where it ends, the latest first. -/
abbrev Parts (κ : Type) := List (κ × Place × Place)

/-- Whether a place lies on an edge of `inside`. -/
def onEdge (inside : Char → Bool) (at_ : Place) : Bool :=
  at_.before.head?.any inside != at_.after.head?.any inside

/-! ## All ways to read a pattern -/

/-- The places reachable over characters that satisfy the test, the furthest first. -/
def reachable (accepts : Char → Bool) : List Char → List Char → List Place
  | before, [] => [⟨before, []⟩]
  | before, c :: s =>
    if accepts c then reachable accepts (c :: before) s ++ [⟨before, c :: s⟩] else [⟨before, c :: s⟩]

/-- All ways to read a pattern at a place, the preferred one first: the place reached and the
parts read on the way, after those read before. -/
def ways : Pattern κ → Place → Parts κ → List (Place × Parts κ)
  | nothing, at_, parts => [(at_, parts)]
  | one accepts, at_, parts =>
    match at_.after with
    | [] => []
    | c :: s => if accepts c then [(⟨c :: at_.before, s⟩, parts)] else []
  | many accepts, at_, parts => (reachable accepts at_.before at_.after).map (·, parts)
  | few accepts, at_, parts => (reachable accepts at_.before at_.after).reverse.map (·, parts)
  | both p q, at_, parts => (p.ways at_ parts).flatMap fun r => q.ways r.1 r.2
  | either p q, at_, parts => p.ways at_ parts ++ q.ways at_ parts
  | textStart, at_, parts => if at_.before.isEmpty then [(at_, parts)] else []
  | textEnd, at_, parts => if at_.after.isEmpty then [(at_, parts)] else []
  | edge inside, at_, parts => if onEdge inside at_ then [(at_, parts)] else []
  | part label p, at_, parts => (p.ways at_ parts).map fun r => (r.1, (label, at_, r.1) :: r.2)

/-! ## The preferred way -/

/-- Tries `next` at every place reachable over characters that satisfy the test, the furthest
first. -/
def tryMany (accepts : Char → Bool) (next : Place → Option α) :
    List Char → List Char → Option α
  | before, [] => next ⟨before, []⟩
  | before, c :: s =>
    if accepts c then
      match tryMany accepts next (c :: before) s with
      | some a => some a
      | none => next ⟨before, c :: s⟩
    else next ⟨before, c :: s⟩

/-- Tries `next` at every place reachable over characters that satisfy the test, the nearest
first. -/
def tryFew (accepts : Char → Bool) (next : Place → Option α) :
    List Char → List Char → Option α
  | before, [] => next ⟨before, []⟩
  | before, c :: s =>
    match next ⟨before, c :: s⟩ with
    | some a => some a
    | none => if accepts c then tryFew accepts next (c :: before) s else none

/-- The result of `next` on the preferred way to read a pattern on which it has one. -/
def first : Pattern κ → (Place → Parts κ → Option α) → Place → Parts κ → Option α
  | nothing, next, at_, parts => next at_ parts
  | one accepts, next, at_, parts =>
    match at_.after with
    | [] => none
    | c :: s => if accepts c then next ⟨c :: at_.before, s⟩ parts else none
  | many accepts, next, at_, parts => tryMany accepts (next · parts) at_.before at_.after
  | few accepts, next, at_, parts => tryFew accepts (next · parts) at_.before at_.after
  | both p q, next, at_, parts => p.first (q.first next) at_ parts
  | either p q, next, at_, parts =>
    match p.first next at_ parts with
    | some a => some a
    | none => q.first next at_ parts
  | textStart, next, at_, parts => if at_.before.isEmpty then next at_ parts else none
  | textEnd, next, at_, parts => if at_.after.isEmpty then next at_ parts else none
  | edge inside, next, at_, parts => if onEdge inside at_ then next at_ parts else none
  | part label p, next, at_, parts =>
    p.first (fun end_ parts => next end_ ((label, at_, end_) :: parts)) at_ parts

theorem tryMany_eq_findSome (accepts : Char → Bool) (next : Place → Option α)
    (before after : List Char) :
    tryMany accepts next before after = (reachable accepts before after).findSome? next := by
  induction after generalizing before with
  | nil => simp [tryMany, reachable]
  | cons c s ih =>
    by_cases h : accepts c = true
    · simp only [tryMany, reachable, h, if_true, ih, List.findSome?_append]
      cases (reachable accepts (c :: before) s).findSome? next with
      | some a => rfl
      | none => simp
    · simp [tryMany, reachable, h]

theorem tryFew_eq_findSome (accepts : Char → Bool) (next : Place → Option α)
    (before after : List Char) :
    tryFew accepts next before after =
      (reachable accepts before after).reverse.findSome? next := by
  induction after generalizing before with
  | nil => simp [tryFew, reachable]
  | cons c s ih =>
    by_cases h : accepts c = true
    · simp only [tryFew, reachable, h, if_true, ih, List.reverse_append, List.reverse_singleton,
        List.singleton_append, List.findSome?_cons]
      cases next ⟨before, c :: s⟩ <;> rfl
    · simp only [tryFew, reachable, if_neg h, List.reverse_singleton, List.findSome?_cons]
      cases next ⟨before, c :: s⟩ <;> rfl

/-- The preferred way is the first success among all ways. -/
theorem first_eq_findSome (p : Pattern κ) (next : Place → Parts κ → Option α) (at_ : Place)
    (parts : Parts κ) :
    p.first next at_ parts = (p.ways at_ parts).findSome? fun r => next r.1 r.2 := by
  induction p generalizing next at_ parts with
  | nothing => simp [first, ways]
  | one accepts =>
    obtain ⟨before, after⟩ := at_
    cases after with
    | nil => rfl
    | cons c s =>
      by_cases h : accepts c = true
      · simp [first, ways, h]
      · simp [first, ways, h]
  | many accepts =>
    simp [first, ways, tryMany_eq_findSome, List.findSome?_map, Function.comp_def]
  | few accepts =>
    simp only [first, ways, tryFew_eq_findSome, List.findSome?_map, Function.comp_def]
  | both p q hp hq =>
    simp only [first, ways, hp, hq]
    induction p.ways at_ parts with
    | nil => rfl
    | cons r rs ih =>
      simp only [List.findSome?_cons, List.flatMap_cons, List.findSome?_append, ← ih]
      cases (q.ways r.1 r.2).findSome? fun r => next r.1 r.2 <;> rfl
  | either p q hp hq =>
    simp only [first, ways, hp, hq, List.findSome?_append]
    cases (p.ways at_ parts).findSome? fun r => next r.1 r.2 <;> rfl
  | textStart =>
    by_cases h : at_.before.isEmpty = true
    · simp [first, ways, h]
    · simp [first, ways, h]
  | textEnd =>
    by_cases h : at_.after.isEmpty = true
    · simp [first, ways, h]
    · simp [first, ways, h]
  | edge inside =>
    by_cases h : onEdge inside at_ = true
    · simp [first, ways, h]
    · simp [first, ways, h]
  | part label p hp =>
    simp [first, ways, hp, List.findSome?_map, Function.comp_def]

/-! ## Matches -/

/-- A piece of text that matches a pattern. -/
structure Found (κ : Type) where
  start : Place
  stop : Place
  parts : Parts κ

def Found.text (f : Found κ) : List Char :=
  f.start.upTo f.stop

/-- The text kept under a label, if the match went through it. -/
def Found.part? [BEq κ] (f : Found κ) (label : κ) : Option (List Char) :=
  (f.parts.find? (·.1 == label)).map fun r => r.2.1.upTo r.2.2

/-- The text kept under a label, empty if the match did not go through it. -/
def Found.part [BEq κ] (f : Found κ) (label : κ) : List Char :=
  (f.part? label).getD []

/-- The preferred match that begins at a place. -/
def matchAt? (p : Pattern κ) (at_ : Place) : Option (Found κ) :=
  p.first (fun end_ parts => some ⟨at_, end_, parts⟩) at_ []

/-- The preferred match that begins where the text does. -/
def match? (p : Pattern κ) (s : List Char) : Option (Found κ) :=
  p.matchAt? (Place.start s)

/-- Whether some piece of text that begins where the text does matches. -/
def matches? (p : Pattern κ) (s : List Char) : Bool :=
  (p.match? s).isSome

/-- The match that begins earliest, after the characters `before`. -/
def findFrom (p : Pattern κ) : List Char → List Char → Option (Found κ)
  | before, [] => p.matchAt? ⟨before, []⟩
  | before, c :: s =>
    match p.matchAt? ⟨before, c :: s⟩ with
    | some f => some f
    | none => findFrom p (c :: before) s

/-- The match that begins earliest. -/
def find? (p : Pattern κ) (s : List Char) : Option (Found κ) :=
  findFrom p [] s

/-- The matches that begin earliest and do not overlap, each within the text after the one before
it. The first argument bounds their number. -/
def findAllFrom (p : Pattern κ) : Nat → Place → List (Found κ)
  | 0, _ => []
  | fuel + 1, at_ =>
    match findFrom p at_.before at_.after with
    | none => []
    | some f =>
      -- an empty match is passed over by one character
      if f.stop.after.length < at_.after.length then f :: findAllFrom p fuel f.stop
      else match f.stop.after with
        | [] => [f]
        | c :: s => f :: findAllFrom p fuel ⟨c :: f.stop.before, s⟩

/-- The matches that begin earliest and do not overlap. -/
def findAll (p : Pattern κ) (s : List Char) : List (Found κ) :=
  findAllFrom p (s.length + 1) (Place.start s)

end Pattern

end PlainSteps
