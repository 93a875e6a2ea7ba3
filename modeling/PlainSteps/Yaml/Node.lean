import PlainSteps.Yaml.Outline

/-!
# The tree of a document

* `Node` : a scalar, list or map as written, with its anchor and tag, or an alias.
* `Node.read?` : the node that a list of tokens begins with, and what follows it. What is left out
  where a node could stand is an empty scalar.
* `root?` : the root of the only document of a text.
-/

namespace PlainSteps.Yaml

/-- What may be written before a node. -/
structure Properties where
  anchor : Option String := none
  tag : Option String := none
  deriving DecidableEq, Repr

/-- A node as written. Aliases refer to anchors by values of the type `ref`. -/
inductive Node (ref : Type) where
  | alias (r : ref)
  | scalar (properties : Properties) (text : String) (plain : Bool)
  | list (properties : Properties) (items : List (Node ref))
  | map (properties : Properties) (fields : List (Node ref × Node ref))

/-- The expansions of the handles of tags. -/
abbrev Handles := List (String × String)

namespace Node

def blank : Node String := .scalar {} "" true

/-- The tag with a handle and a suffix; the handle must be known, or empty. -/
def tag? (handles : Handles) (handle suffix : String) : Option String :=
  if handle.isEmpty then some suffix
  else (handles.find? (·.1 == handle)).map fun h => h.2 ++ suffix

/-- An anchor and a tag in either order, and the tokens after them. -/
def properties? (handles : Handles) : List Token → Option (Properties × List Token)
  | .anchor a :: .tag h s :: ts => (tag? handles h s).map fun t => (⟨some a, some t⟩, ts)
  | .tag h s :: .anchor a :: ts => (tag? handles h s).map fun t => (⟨some a, some t⟩, ts)
  | .anchor a :: ts => some (⟨some a, none⟩, ts)
  | .tag h s :: ts => (tag? handles h s).map fun t => (⟨none, some t⟩, ts)
  | ts => some ({}, ts)

/-- A tag of a scalar that says only that it is no plain one says nothing here. -/
def ofScalar (p : Properties) (text : String) (plain : Bool) : Node String :=
  .scalar (if p.tag == some "!" then { p with tag := none } else p) text plain

mutual

/-- A node. Blocks are allowed if `block`, and a list as deep as the map around it if `level`. -/
def read? (handles : Handles) : Nat → (block level : Bool) → List Token →
    Option (Node String × List Token)
  | 0, _, _, _ => none
  | _ + 1, _, _, .alias name :: ts => some (.alias name, ts)
  | fuel + 1, block, level, ts =>
    match properties? handles ts with
    | none => none
    | some (p, ts) =>
      match ts with
      | .scalar text plain :: ts => some (ofScalar p text plain, ts)
      | .flowListStart :: ts => (flowFirst? handles fuel ts).map fun r => (.list p r.1, r.2)
      | .flowMapStart :: ts => (flowFields? handles fuel true ts).map fun r => (.map p r.1, r.2)
      | .blockListStart :: ts =>
        if block then (blockItems? handles fuel ts).map fun r => (.list p r.1, r.2)
        else if p == {} then none else some (.scalar p "" true, .blockListStart :: ts)
      | .blockMapStart :: ts =>
        if block then (blockFields? handles fuel ts).map fun r => (.map p r.1, r.2)
        else if p == {} then none else some (.scalar p "" true, .blockMapStart :: ts)
      | .blockEntry :: ts =>
        if level then
          (levelItems? handles fuel (.blockEntry :: ts)).map fun r => (.list p r.1, r.2)
        else if p == {} then none else some (.scalar p "" true, .blockEntry :: ts)
      | [] => none
      | ts => if p == {} then none else some (.scalar p "" true, ts)

/-- The items of a list that is a block of its own. -/
def blockItems? (handles : Handles) : Nat → List Token →
    Option (List (Node String) × List Token)
  | 0, _ => none
  | fuel + 1, .blockEntry :: ts =>
    let item := match ts with
      | [] => none
      | .blockEntry :: _ | .blockEnd :: _ => some (blank, ts)
      | _ => read? handles fuel true false ts
    match item with
    | none => none
    | some (v, ts) => (blockItems? handles fuel ts).map fun r => (v :: r.1, r.2)
  | _ + 1, .blockEnd :: ts => some ([], ts)
  | _ + 1, _ => none

/-- The items of a list that is as deep as the map around it. -/
def levelItems? (handles : Handles) : Nat → List Token →
    Option (List (Node String) × List Token)
  | 0, _ => none
  | fuel + 1, .blockEntry :: ts =>
    let item := match ts with
      | [] => none
      | .blockEntry :: _ | .key :: _ | .value :: _ | .blockEnd :: _ => some (blank, ts)
      | _ => read? handles fuel true false ts
    match item with
    | none => none
    | some (v, ts) => (levelItems? handles fuel ts).map fun r => (v :: r.1, r.2)
  | _ + 1, [] => none
  | _ + 1, ts => some ([], ts)

/-- The key or the value of a field in a block, after its mark. -/
def blockPart? (handles : Handles) : Nat → List Token → Option (Node String × List Token)
  | 0, _ => none
  | fuel + 1, ts =>
    match ts with
    | [] => none
    | .key :: _ | .value :: _ | .blockEnd :: _ => some (blank, ts)
    | _ => read? handles fuel true true ts

/-- The fields of a map that is a block. -/
def blockFields? (handles : Handles) : Nat → List Token →
    Option (List (Node String × Node String) × List Token)
  | 0, _ => none
  | fuel + 1, .key :: ts =>
    match blockPart? handles fuel ts with
    | none => none
    | some (k, ts) =>
      let value := match ts with
        | [] => none
        | .value :: ts => blockPart? handles fuel ts
        | _ => some (blank, ts)
      match value with
      | none => none
      | some (v, ts) => (blockFields? handles fuel ts).map fun r => ((k, v) :: r.1, r.2)
  | _ + 1, .blockEnd :: ts => some ([], ts)
  | _ + 1, _ => none

/-- The items of a list between brackets, after the opening one. -/
def flowFirst? (handles : Handles) : Nat → List Token →
    Option (List (Node String) × List Token)
  | 0, _ => none
  | _ + 1, .flowListEnd :: ts => some ([], ts)
  | fuel + 1, ts =>
    match flowItem? handles fuel ts with
    | none => none
    | some (v, ts) => (flowItems? handles fuel ts).map fun r => (v :: r.1, r.2)

/-- The items of a list between brackets, after the first. -/
def flowItems? (handles : Handles) : Nat → List Token →
    Option (List (Node String) × List Token)
  | 0, _ => none
  | _ + 1, .flowListEnd :: ts => some ([], ts)
  | _ + 1, .flowEntry :: .flowListEnd :: ts => some ([], ts)
  | fuel + 1, .flowEntry :: ts =>
    match flowItem? handles fuel ts with
    | none => none
    | some (v, ts) => (flowItems? handles fuel ts).map fun r => (v :: r.1, r.2)
  | _ + 1, _ => none

/-- An item of a list between brackets; one with a key is a map of one field. A mark in the place of
the key is passed over. -/
def flowItem? (handles : Handles) : Nat → List Token → Option (Node String × List Token)
  | 0, _ => none
  | fuel + 1, .key :: ts =>
    let key := match ts with
      | [] => none
      | .value :: ts | .flowEntry :: ts | .flowListEnd :: ts => some (blank, ts)
      | _ => read? handles fuel false false ts
    match key with
    | none => none
    | some (k, ts) =>
      let value := match ts with
        | [] => none
        | .value :: ts =>
          match ts with
          | [] => none
          | .flowEntry :: _ | .flowListEnd :: _ => some (blank, ts)
          | _ => read? handles fuel false false ts
        | _ => some (blank, ts)
      value.map fun (v, ts) => (.map {} [(k, v)], ts)
  | fuel + 1, ts => read? handles fuel false false ts

/-- The fields of a map between braces; `first` tells whether none has been read. -/
def flowFields? (handles : Handles) : Nat → Bool → List Token →
    Option (List (Node String × Node String) × List Token)
  | 0, _, _ => none
  | _ + 1, _, .flowMapEnd :: ts => some ([], ts)
  | fuel + 1, first, ts =>
    let start := if first then some ts else match ts with
      | .flowEntry :: ts => some ts
      | _ => none
    match start with
    | none => none
    | some (.flowMapEnd :: ts) => some ([], ts)
    | some ts =>
      match flowField? handles fuel ts with
      | none => none
      | some (f, ts) => (flowFields? handles fuel false ts).map fun r => (f :: r.1, r.2)

/-- A field of a map between braces; without a mark it is a key alone. -/
def flowField? (handles : Handles) : Nat → List Token →
    Option ((Node String × Node String) × List Token)
  | 0, _ => none
  | fuel + 1, .key :: ts =>
    let key := match ts with
      | [] => none
      | .value :: _ | .flowEntry :: _ | .flowMapEnd :: _ => some (blank, ts)
      | _ => read? handles fuel false false ts
    match key with
    | none => none
    | some (k, ts) =>
      let value := match ts with
        | [] => none
        | .value :: ts =>
          match ts with
          | [] => none
          | .flowEntry :: _ | .flowMapEnd :: _ => some (blank, ts)
          | _ => read? handles fuel false false ts
        | _ => some (blank, ts)
      value.map fun (v, ts) => ((k, v), ts)
  | fuel + 1, ts =>
    match read? handles fuel false false ts with
    | none | some (_, []) => none
    | some (k, ts) => some ((k, blank), ts)

end

end Node

/-! ## Documents -/

def usualHandles : Handles := [("!", "!"), ("!!", "tag:yaml.org,2002:")]

/-- The handles of a document after its directives, and the tokens from its first mark on. A version
or a handle may be given once, and the version must be 1.1 or 1.2. -/
def directives? (versioned : Bool) (handles : Handles) : List Token → Option (Handles × List Token)
  | .version major minor :: ts =>
    if versioned || major != 1 || (minor != 1 && minor != 2) then none
    else directives? true handles ts
  | .tagRule h e :: ts =>
    if handles.any (·.1 == h) then none else directives? versioned (handles ++ [(h, e)]) ts
  | ts => some (handles ++ usualHandles, ts)

/-- Whether only marks of a document's end come before the end of the text. -/
def isEnd (ts : List Token) : Bool :=
  match ts.dropWhile (· == .documentEnd) with
  | [.streamEnd] => true
  | _ => false

/-- The root of a document that begins with a node, if nothing follows it. -/
def rootNode? (handles : Handles) (ts : List Token) : Option (Node String) :=
  match Node.read? handles (4 * ts.length + 4) true false ts with
  | some (n, rest) => if isEnd rest then some n else none
  | none => none

/-- The root of a document after its directives and the mark of its beginning. -/
def markedRoot? (ts : List Token) : Option (Node String) :=
  match directives? false [] ts with
  | some (handles, .documentStart :: ts) =>
    match ts with
    | .documentEnd :: _ | .streamEnd :: _ => if isEnd ts then some .blank else none
    | .version _ _ :: _ | .tagRule _ _ :: _ | .documentStart :: _ => none
    | _ => rootNode? handles ts
  | _ => none

/-- The root of the only document that the tokens form. Without a document it is an empty scalar. -/
def root? (ts : List Token) : Option (Node String) :=
  match ts with
  | [.streamEnd] => some .blank
  | .version _ _ :: _ | .tagRule _ _ :: _ | .documentStart :: _ => markedRoot? ts
  | _ => rootNode? usualHandles ts

end PlainSteps.Yaml
