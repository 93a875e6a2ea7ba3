import PlainSteps.Number.Layout

/-!
# JSON values

* `Json` : a value. The fields of an object keep their order, and a name may occur twice, so that
  readers of a record can refuse it.
* `Json.depth` : how deep values nest.
* `Json.Number` : whole numbers of 64 bits are kept apart from doubles.
-/

namespace PlainSteps

/-- A number: a whole number of 64 bits, with or without sign, or a double. -/
inductive Json.Number where
  | whole (n : Int)
  | double (x : Number.Binary64)
  deriving Repr, Inhabited

/-- A JSON value. -/
inductive Json where
  | null
  | bool (b : Bool)
  | number (n : Json.Number)
  | string (s : String)
  | array (items : List Json)
  | object (fields : List (String × Json))
  deriving Repr, Inhabited

namespace Json

def nat (n : Nat) : Json := number (.whole n)

/-- A list of texts as a value. -/
def strings (ss : List String) : Json := array (ss.map string)

def field? (name : String) : Json → Option Json
  | object fields => (fields.find? (·.1 == name)).map (·.2)
  | _ => none

/-- The fields that are there, in order. -/
def record (fields : List (String × Option Json)) : Json :=
  object (fields.filterMap fun f => f.2.map (f.1, ·))

def text? : Json → Option String
  | string s => some s
  | _ => none

/-! ## Nesting -/

mutual

/-- How deep values nest in a value. -/
def depth : Json → Nat
  | array items => itemsDepth items + 1
  | object fields => fieldsDepth fields + 1
  | _ => 1

/-- How deep values nest in several values. -/
def itemsDepth : List Json → Nat
  | [] => 0
  | v :: vs => max (depth v) (itemsDepth vs)

/-- How deep values nest in the values of several fields. -/
def fieldsDepth : List (String × Json) → Nat
  | [] => 0
  | (_, v) :: fs => max (depth v) (fieldsDepth fs)

end

/-! ## Sorted fields -/

/-- Puts a field at its place in a list sorted by name, in place of one of the same name. -/
def insertField (f : String × Json) : List (String × Json) → List (String × Json)
  | [] => [f]
  | g :: gs => if f.1 < g.1 then f :: g :: gs else if f.1 == g.1 then f :: gs else g :: insertField f gs

mutual

/-- The value with the fields of every object sorted by name; of fields of one name the last
counts. -/
def sorted : Json → Json
  | array items => array (sortedItems items)
  | object fields => object (sortedFields fields [])
  | v => v

def sortedItems : List Json → List Json
  | [] => []
  | v :: vs => sorted v :: sortedItems vs

/-- The fields with sorted values, put into a sorted list one after the other. -/
def sortedFields : List (String × Json) → List (String × Json) → List (String × Json)
  | [], done => done
  | (name, v) :: fs, done => sortedFields fs (insertField (name, sorted v) done)

end

end Json

end PlainSteps
