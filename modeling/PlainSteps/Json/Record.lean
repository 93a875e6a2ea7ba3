import PlainSteps.Json

/-!
# Records in JSON

* `Json.fields?` : the values of the named fields of a record, which is an object, or the list of the
  values in order. Fields of other names are passed over, and no field may be given twice.
* `Json.tagged?` : a record apart from the field that tells its kind.
* `Json.natural?`, `Json.list?`, `Json.optional?`, `Json.orElse?` : values of fields.
-/

namespace PlainSteps.Json

/-- The value of a field that may be missing and may not be given twice. -/
def single? (fields : List (String × Json)) (name : String) : Option (Option Json) :=
  match fields.filter (·.1 == name) with
  | [] => some none
  | [f] => some (some f.2)
  | _ => none

/-- The values of the named fields of a record. -/
def fields? (names : List String) : Json → Option (List (Option Json))
  | object fields => names.mapM (single? fields)
  | array items =>
    if names.length < items.length then none
    else some (items.map some ++ List.replicate (names.length - items.length) none)
  | _ => none

/-- The values of the named fields of a record that has them all. -/
def allFields? (names : List String) (v : Json) : Option (List Json) :=
  (v.fields? names).bind fun values => values.mapM id

/-- The field that tells the kind of a record, or the first item, and the record for its other
fields. -/
def tagged? (tag : String) : Json → Option (Json × Json)
  | object fields => (single? fields tag).join.map (·, object fields)
  | array (kind :: items) => some (kind, array items)
  | _ => none

def natural? (bound : Nat) : Json → Option Nat
  | number (.whole n) => if 0 ≤ n ∧ n < bound then some n.toNat else none
  | _ => none

def count? : Json → Option Nat := natural? (Nat.pow 2 64)

/-- A list of values that are all readable. -/
def list? {α : Type} (read : Json → Option α) : Json → Option (List α)
  | array items => items.mapM read
  | _ => none

/-- A field that may be missing or null. -/
def optional? {α : Type} (read : Json → Option α) : Option Json → Option (Option α)
  | none | some null => some none
  | some v => (read v).map some

/-- A field with a value for when it is missing. -/
def orElse? {α : Type} (usual : α) (read : Json → Option α) : Option Json → Option α
  | none => some usual
  | some v => read v

/-- A word, written as a text, or as the name of the only field of an object, with null in it. -/
def word? : Json → Option String
  | string s => some s
  | object [(s, null)] => some s
  | _ => none

/-- The one of several values that a word stands for. -/
def choice? {α : Type} (values : List α) (word : α → String) (v : Json) : Option α :=
  v.word?.bind fun w => values.find? (word · == w)

end PlainSteps.Json
