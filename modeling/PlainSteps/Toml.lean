import PlainSteps.Number.Binary64

/-!
# TOML values

* `Toml` : a value of a TOML document. A table keeps its fields in order, each name once.
-/

namespace PlainSteps

/-- A value of a TOML document. -/
inductive Toml where
  | string (s : String)
  | integer (n : Int)
  | float (x : Number.Binary64)
  | boolean (b : Bool)
  /-- A date, a time, or both, as written. -/
  | moment (text : String)
  | array (items : List Toml)
  | table (fields : List (String × Toml))
  deriving Repr, Inhabited

namespace Toml

mutual

/-- Equality of values is decided part by part. -/
def decEq : (a b : Toml) → Decidable (a = b)
  | string s, b =>
    match b with
    | string t => if h : s = t then isTrue (congrArg string h) else isFalse fun e => h (string.inj e)
    | integer _ | float _ | boolean _ | moment _ | array _ | table _ => isFalse nofun
  | integer n, b =>
    match b with
    | integer m => if h : n = m then isTrue (congrArg integer h) else isFalse fun e => h (integer.inj e)
    | string _ | float _ | boolean _ | moment _ | array _ | table _ => isFalse nofun
  | float x, b =>
    match b with
    | float y => if h : x = y then isTrue (congrArg float h) else isFalse fun e => h (float.inj e)
    | string _ | integer _ | boolean _ | moment _ | array _ | table _ => isFalse nofun
  | boolean x, b =>
    match b with
    | boolean y => if h : x = y then isTrue (congrArg boolean h) else isFalse fun e => h (boolean.inj e)
    | string _ | integer _ | float _ | moment _ | array _ | table _ => isFalse nofun
  | moment s, b =>
    match b with
    | moment t => if h : s = t then isTrue (congrArg moment h) else isFalse fun e => h (moment.inj e)
    | string _ | integer _ | float _ | boolean _ | array _ | table _ => isFalse nofun
  | array xs, b =>
    match b with
    | array ys =>
      match decEqItems xs ys with
      | isTrue h => isTrue (congrArg array h)
      | isFalse h => isFalse fun e => h (array.inj e)
    | string _ | integer _ | float _ | boolean _ | moment _ | table _ => isFalse nofun
  | table xs, b =>
    match b with
    | table ys =>
      match decEqFields xs ys with
      | isTrue h => isTrue (congrArg table h)
      | isFalse h => isFalse fun e => h (table.inj e)
    | string _ | integer _ | float _ | boolean _ | moment _ | array _ => isFalse nofun

def decEqItems : (a b : List Toml) → Decidable (a = b)
  | [], [] => isTrue rfl
  | x :: xs, y :: ys =>
    match decEq x y, decEqItems xs ys with
    | isTrue h, isTrue hs => isTrue (by rw [h, hs])
    | isFalse h, _ => isFalse fun e => h (List.cons.inj e).1
    | _, isFalse h => isFalse fun e => h (List.cons.inj e).2
  | [], _ :: _ | _ :: _, [] => isFalse nofun

def decEqFields : (a b : List (String × Toml)) → Decidable (a = b)
  | [], [] => isTrue rfl
  | (name, x) :: xs, (name', y) :: ys =>
    match decEq x y, decEqFields xs ys with
    | isTrue h, isTrue hs =>
      if hn : name = name' then isTrue (by rw [hn, h, hs])
      else isFalse fun e => hn (Prod.mk.inj (List.cons.inj e).1).1
    | isFalse h, _ => isFalse fun e => h (Prod.mk.inj (List.cons.inj e).1).2
    | _, isFalse h => isFalse fun e => h (List.cons.inj e).2
  | [], _ :: _ | _ :: _, [] => isFalse nofun

end

instance : DecidableEq Toml := decEq

def lookup? (name : String) (fields : List (String × Toml)) : Option Toml :=
  (fields.find? (·.1 == name)).map (·.2)

def strings (ss : List String) : Toml :=
  array (ss.map string)

def nat (n : Nat) : Toml :=
  integer n

/-- The least and the greatest integer of the format. -/
def isInteger (n : Int) : Bool :=
  -(Nat.pow 2 63 : Int) ≤ n && n < (Nat.pow 2 63 : Int)

end Toml

end PlainSteps
