import PlainSteps.Json

/-!
# YAML values

* `Yaml` : a value of a YAML document. Any value can be a key, fields keep their order, and a key may
  occur twice, so that readers of a record can refuse it.
* `Yaml.ofJson` : JSON data is YAML data.
-/

namespace PlainSteps

/-- A YAML value. -/
inductive Yaml where
  | null
  | bool (b : Bool)
  | number (n : Json.Number)
  | string (s : String)
  | list (items : List Yaml)
  | map (fields : List (Yaml × Yaml))
  deriving Repr, Inhabited

namespace Yaml

mutual

/-- A JSON value as a YAML value. -/
def ofJson : Json → Yaml
  | .null => null
  | .bool b => bool b
  | .number n => number n
  | .string s => string s
  | .array items => list (ofJsonItems items)
  | .object fields => map (ofJsonFields fields)

def ofJsonItems : List Json → List Yaml
  | [] => []
  | v :: vs => ofJson v :: ofJsonItems vs

/-- Fields of a JSON object as fields of a map. -/
def ofJsonFields : List (String × Json) → List (Yaml × Yaml)
  | [] => []
  | (name, v) :: fs => (string name, ofJson v) :: ofJsonFields fs

end

end Yaml

end PlainSteps
