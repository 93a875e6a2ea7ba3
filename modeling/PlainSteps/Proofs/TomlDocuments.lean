import PlainSteps.Proofs.TomlValues

/-!
# Documents of TOML are read as they are written

`Toml.read?_document`: the document of a table is read as that table, with the values of each table before
its tables (`arranged`), as they stand in the document; and `Toml.document?_isSome`: a table has a document
exactly if all its integers are integers of the format.

The table under construction is taken apart at the table that is open: `Frame`s are what stands before each
table on the way there, and `plug` puts them back. The open table is always the last of its parent, so a
header or a key changes what is in it and nothing else (`changeAt_plug`). A line with a key adds a value to
it (`reads_value`), and a header opens a new table after what is in it (`reads_header`). The sections of a
table are read by induction on the table (`reads_sections`).
-/

namespace PlainSteps.Toml

open Text

/-! ## Tables as they are written -/

/-- The names of fields. -/
def names {α : Type} (fields : List (String × α)) : List String := fields.map Prod.fst

/-- Fields that can be written: each name once and bare, values that fit on lines, and tables at most
`depth` deep. -/
inductive Writable : Nat → List (String × Toml) → Prop
  | nil {depth : Nat} : Writable depth []
  | value {depth : Nat} {name : String} {v : Toml} {fields : List (String × Toml)}
    (hname : isBare name.toList = true) (hfresh : name ∉ names fields) (hv : v.IsPlain)
    (hfields : Writable depth fields) : Writable depth ((name, v) :: fields)
  | table {depth : Nat} {name : String} {inner fields : List (String × Toml)}
    (hname : isBare name.toList = true) (hfresh : name ∉ names fields) (hinner : Writable depth inner)
    (hfields : Writable (depth + 1) fields) : Writable (depth + 1) ((name, .table inner) :: fields)

/-- The values of a table that are no tables. -/
def ownValues (fields : List (String × Toml)) : List (String × Toml) :=
  fields.filter fun f => match f.2 with
    | .table _ => false
    | _ => true

/-- The tables of a table, each with its own values before its tables. -/
def ownTables : List (String × Toml) → List (String × Toml)
  | [] => []
  | (name, .table inner) :: fields => (name, .table (ownValues inner ++ ownTables inner)) :: ownTables fields
  | _ :: fields => ownTables fields

/-- The fields of a table in the order of a document. -/
def arranged (fields : List (String × Toml)) : List (String × Toml) := ownValues fields ++ ownTables fields

theorem not_table_of_plain {v : Toml} (hv : v.IsPlain) : ∀ inner, v ≠ .table inner := by
  rintro inner rfl
  exact hv

theorem ownTables_value {v : Toml} (hv : v.IsPlain) (name : String) (fields : List (String × Toml)) :
    ownTables ((name, v) :: fields) = ownTables fields := by
  rw [ownTables]
  exact fun _ inner h => not_table_of_plain hv inner (Prod.mk.inj h).2

theorem ownValues_value {v : Toml} (hv : v.IsPlain) (name : String) (fields : List (String × Toml)) :
    ownValues ((name, v) :: fields) = (name, v) :: ownValues fields := by
  cases v with
  | table inner => exact absurd hv id
  | _ => rfl

theorem sections?_value {v : Toml} (hv : v.IsPlain) (path : List String) (name : String)
    (fields : List (String × Toml)) : sections? path ((name, v) :: fields) = sections? path fields := by
  rw [sections?]
  exact fun _ inner h => not_table_of_plain hv inner (Prod.mk.inj h).2

theorem valueLines?_value {v : Toml} (hv : v.IsPlain) {name : String} (hname : isBare name.toList = true)
    {fields : List (String × Toml)} {text : String} (h : valueLines? ((name, v) :: fields) = some text) :
    ∃ value rest, valueText? v = some value ∧ valueLines? fields = some rest ∧
      text.toList = (name.toList ++ " = ".toList ++ value.toList ++ ['\n']) ++ rest.toList := by
  rw [valueLines?, keyText, if_pos hname] at h
  · cases hvalue : valueText? v with
    | none => simp [hvalue] at h
    | some value =>
      cases hrest : valueLines? fields with
      | none => simp [hvalue, hrest] at h
      | some rest =>
        rw [hvalue, hrest] at h
        obtain rfl := Option.some.inj h
        refine ⟨value, rest, rfl, rfl, ?_⟩
        simp only [String.toList_append]
        rfl
  · exact fun inner h => not_table_of_plain hv inner h

theorem sections?_table {path : List String} {name : String} {inner fields : List (String × Toml)}
    {texts : List String} (h : sections? path ((name, .table inner) :: fields) = some texts) :
    ∃ own below rest, valueLines? inner = some own ∧ sections? (path ++ [name]) inner = some below ∧
      sections? path fields = some rest ∧
      texts = ("[" ++ ".".intercalate ((path ++ [name]).map keyText) ++ "]\n" ++ own) :: (below ++ rest) := by
  rw [sections?] at h
  dsimp only at h
  cases hown : valueLines? inner with
  | none => simp [hown] at h
  | some own =>
    cases hbelow : sections? (path ++ [name]) inner with
    | none => simp [hown, hbelow] at h
    | some below =>
      cases hrest : sections? path fields with
      | none => simp [hown, hbelow, hrest] at h
      | some rest =>
        simp only [hown, hbelow, hrest] at h
        exact ⟨own, below, rest, rfl, rfl, rfl, (Option.some.inj h).symm⟩

/-! ## Keys -/

theorem isBareKey_of_isBare {s : List Char} (h : isBare s = true) :
    s ≠ [] ∧ ∀ c ∈ s, isBareKey c = true := by
  rw [isBare, Bool.and_eq_true, List.all_eq_true] at h
  refine ⟨by simpa using h.1, fun c hc => ?_⟩
  have hkey := h.2 c hc
  simpa [isBare.isAsciiKey, isBareKey, isAsciiAlphanumeric, isAsciiLetter, isAsciiDigit] using hkey

theorem keyPart?_bare {name : String} (hname : isBare name.toList = true) {c : Char}
    (hc : isBareKey c = false) (s : List Char) :
    keyPart? (skipGap (name.toList ++ c :: s)) = some (name, c :: s) := by
  obtain ⟨hne, hkey⟩ := isBareKey_of_isBare hname
  obtain ⟨d, t, hdt⟩ := List.exists_cons_of_ne_nil hne
  have hd : isBareKey d = true := hkey d (by rw [hdt]; exact List.mem_cons_self)
  have hnone : ∀ e ∈ [' ', '\t', '"', '\''], ¬isBareKey e = true := List.all_iff_forall_prop.mp (by decide)
  have hother : d ∉ [' ', '\t', '"', '\''] := fun h => hnone d h hd
  simp only [List.mem_cons, List.not_mem_nil, or_false, not_or] at hother
  have hgap : skipGap (name.toList ++ c :: s) = name.toList ++ c :: s := by
    rw [hdt, List.cons_append, skipGap, List.dropWhile_cons_of_neg]
    simp [isGap, hother.1, hother.2.1]
  have hpart : (name.toList ++ c :: s).takeWhile isBareKey = name.toList := by
    rw [List.takeWhile_append_of_pos hkey, List.takeWhile_cons_of_neg (by simp [hc]), List.append_nil]
  rw [hgap]
  unfold keyPart?
  split
  case h_1 heq => exact absurd (List.cons.inj (hdt ▸ heq : d :: t ++ c :: s = _)).1 hother.2.2.1
  case h_2 heq => exact absurd (List.cons.inj (hdt ▸ heq : d :: t ++ c :: s = _)).1 hother.2.2.2
  case h_3 =>
    dsimp only
    rw [hpart, if_neg (by simpa using hne), List.drop_left, String.ofList_toList]

/-- The parts of a key with points between them. -/
def dotted (path : List String) : List Char := ['.'].intercalate (path.map String.toList)

theorem dotted_cons (name next : String) (path : List String) :
    dotted (name :: next :: path) = name.toList ++ '.' :: dotted (next :: path) := by
  simp [dotted, List.intercalate]

theorem keyRest?_dotted {path : List String} (hne : path ≠ [])
    (hbare : ∀ name ∈ path, isBare name.toList = true) {c : Char} (hc : isBareKey c = false) {s : List Char}
    (hs : ∀ u, skipGap (c :: s) ≠ '.' :: u) {fuel : Nat} (hfuel : path.length ≤ fuel) :
    keyRest? fuel (dotted path ++ c :: s) = some (path, skipGap (c :: s)) := by
  induction path generalizing fuel with
  | nil => exact absurd rfl hne
  | cons name path ih =>
    obtain ⟨hname, hpath⟩ := List.forall_mem_cons.mp hbare
    rw [List.length_cons] at hfuel
    obtain ⟨fuel, rfl⟩ := Nat.exists_eq_succ_of_ne_zero (by omega : fuel ≠ 0)
    cases path with
    | nil =>
      have hdotted : dotted [name] = name.toList := by simp [dotted]
      rw [hdotted, keyRest?, keyPart?_bare hname hc]
      dsimp only [Option.bind_eq_bind, Option.bind_some]
      split
      case h_1 u heq => exact absurd heq (hs u)
      case h_2 => rfl
    | cons next path =>
      have hpoint : skipGap ('.' :: (dotted (next :: path) ++ c :: s)) = '.' :: (dotted (next :: path) ++ c :: s) := by
        rfl
      rw [dotted_cons, List.append_assoc, List.cons_append, keyRest?, keyPart?_bare hname (by decide)]
      dsimp only [Option.bind_eq_bind, Option.bind_some]
      rw [hpoint]
      simp only
      rw [ih (List.cons_ne_nil _ _) hpath (by omega)]
      rfl

/-! ## The open table -/

/-- What stands before a table in its parent, and its name there. -/
structure Frame where
  before : Fields
  name : String

/-- The table around an open one. -/
def plug : List Frame → Fields → Fields
  | [], inner => inner
  | f :: frames, inner => f.before ++ [(f.name, .table .header (plug frames inner))]

/-- The path of the open table. -/
def pathOf (frames : List Frame) : List String := frames.map Frame.name

/-- No name occurs twice on the way to the open table. -/
def Fresh (frames : List Frame) : Prop := ∀ f ∈ frames, f.name ∉ names f.before

theorem pathOf_concat (frames : List Frame) (f : Frame) : pathOf (frames ++ [f]) = pathOf frames ++ [f.name] :=
  List.map_append

theorem Fresh.concat {frames : List Frame} (h : Fresh frames) {f : Frame} (hf : f.name ∉ names f.before) :
    Fresh (frames ++ [f]) := by
  intro g hg
  rcases List.mem_append.mp hg with hg | hg
  · exact h g hg
  · obtain rfl := List.mem_singleton.mp hg
    exact hf

theorem plug_concat (frames : List Frame) (f : Frame) (inner : Fields) :
    plug (frames ++ [f]) inner = plug frames (f.before ++ [(f.name, .table .header inner)]) := by
  induction frames with
  | nil => rfl
  | cons g frames ih => rw [List.cons_append, plug, plug, ih]

theorem get?_append_self {before : Fields} {name : String} (h : name ∉ names before) (p : Part) :
    Fields.get? (before ++ [(name, p)]) name = some p := by
  have hnone : before.find? (·.1 == name) = none := by
    rw [List.find?_eq_none]
    intro f hf heq
    exact h (List.mem_map.mpr ⟨f, hf, by simpa using heq⟩)
  rw [Fields.get?, List.find?_append, hnone]
  simp

theorem get?_of_notMem {fields : Fields} {name : String} (h : name ∉ names fields) :
    fields.get? name = none := by
  rw [Fields.get?, Option.map_eq_none_iff, List.find?_eq_none]
  intro f hf heq
  exact h (List.mem_map.mpr ⟨f, hf, by simpa using heq⟩)

theorem put_append_self {before : Fields} {name : String} (h : name ∉ names before) (p q : Part) :
    Fields.put (before ++ [(name, p)]) name q = before ++ [(name, q)] := by
  have hother : ∀ f ∈ before, (if f.1 == name then (name, q) else f) = f := by
    intro f hf
    refine if_neg fun heq => h (List.mem_map.mpr ⟨f, hf, by simpa using heq⟩)
  rw [Fields.put, if_pos (by simp), List.map_append, List.map_congr_left hother]
  simp

theorem put_of_notMem {fields : Fields} {name : String} (h : name ∉ names fields) (p : Part) :
    fields.put name p = fields ++ [(name, p)] := by
  rw [Fields.put, if_neg]
  rw [List.any_eq_true]
  rintro ⟨f, hf, heq⟩
  exact h (List.mem_map.mpr ⟨f, hf, by simpa using heq⟩)

/-- A change at the path of the open table changes what is in it. -/
theorem changeAt_plug {frames : List Frame} (h : Fresh frames) (change : Origin → Fields → Option Fields)
    (inner : Fields) :
    changeAt false (pathOf frames) change .header (plug frames inner) =
      (change .header inner).map (plug frames) := by
  induction frames with
  | nil =>
    have hplug : plug [] = id := by rfl
    rw [hplug, Option.map_id]
    rfl
  | cons f frames ih =>
    obtain ⟨hf, hframes⟩ := List.forall_mem_cons.mp h
    have hpath : pathOf (f :: frames) = f.name :: pathOf frames := by rfl
    rw [hpath, plug, changeAt, get?_append_self hf]
    dsimp only
    rw [if_neg (by simp), ih hframes]
    cases change .header inner with
    | none => rfl
    | some inner' =>
      dsimp only [Option.map_some, Option.bind_eq_bind, Option.bind_some]
      rw [put_append_self hf]
      rfl

/-! ## Lines -/

/-- A text takes the reader from one section to another, whatever follows it. The bound has room for a line
end before the text, for which the reader of a document has no fuel. -/
def Reads (text : List Char) (a b : Section) : Prop :=
  ∀ rest fuel, (text ++ rest).length < 2 * fuel →
    ∃ fuel', rest.length < 2 * fuel' ∧ linesRest? fuel a (text ++ rest) = linesRest? fuel' b rest

theorem Reads.nil (a : Section) : Reads [] a a := fun _ fuel h => ⟨fuel, h, rfl⟩

theorem Reads.append {s t : List Char} {a b c : Section} (hs : Reads s a b) (ht : Reads t b c) :
    Reads (s ++ t) a c := by
  intro rest fuel h
  rw [List.append_assoc] at h ⊢
  obtain ⟨fuel', h', heq⟩ := hs (t ++ rest) fuel h
  obtain ⟨fuel'', h'', heq'⟩ := ht rest fuel' h'
  exact ⟨fuel'', h'', heq.trans heq'⟩

theorem linesRest?_value {fuel : Nat} {a b : Section} {s u r t : List Char} {key : List String} {v : Toml}
    (hs : Solid s) (hfirst : ∀ t, s ≠ '[' :: t) (hkey : key? s = some (key, '=' :: u))
    (hvalue : valueRest? (2 * u.length + 2) maxNesting (skipGap u) = some (v, r))
    (hassign : a.assign? key v = some b) (hline : restOfLine? r = some t) :
    linesRest? (fuel + 1) a s = linesRest? fuel b t := by
  rw [linesRest?, skipLines_solid hs]
  split
  case h_1 =>
    obtain ⟨c, t, hct, -⟩ := hs
    cases hct
  case h_2 => exact absurd rfl (hfirst _)
  case h_3 => exact absurd rfl (hfirst _)
  case h_4 =>
    rw [hkey]
    simp only [Option.bind_eq_bind, Option.bind_some, hvalue, hassign, hline]

theorem linesRest?_header {fuel : Nat} {a : Section} {s u r t : List Char} {path : List String}
    {document : Fields} (hs : skipLines fuel s = '[' :: u) (hfirst : ∀ t, u ≠ '[' :: t)
    (hkey : key? u = some (path, ']' :: r)) (hopen : openTable? path a.document = some document)
    (hline : restOfLine? r = some t) : linesRest? (fuel + 1) a s = linesRest? fuel ⟨document, path⟩ t := by
  rw [linesRest?, hs]
  split
  case h_1 heq => cases heq
  case h_2 heq => exact absurd (List.cons.inj heq).2 (hfirst _)
  case h_3 heq =>
    obtain rfl := (List.cons.inj heq).2
    rw [hkey]
    simp only [Option.bind_eq_bind, Option.bind_some, hopen, hline]
  case h_4 heq => exact absurd rfl (heq _)

theorem solid_bare {name : String} (hname : isBare name.toList = true) :
    Solid name.toList ∧ ∀ c ∈ name.toList.head?, c ≠ '[' := by
  obtain ⟨hne, hkey⟩ := isBareKey_of_isBare hname
  obtain ⟨c, t, hct⟩ := List.exists_cons_of_ne_nil hne
  have hc : isBareKey c = true := hkey c (by rw [hct]; exact List.mem_cons_self)
  have hnone : ∀ d ∈ [' ', '\t', '#', '\n', '\r', ']', '['], ¬isBareKey d = true :=
    List.all_iff_forall_prop.mp (by decide)
  have hother : c ∉ [' ', '\t', '#', '\n', '\r', ']', '['] := fun h => hnone c h hc
  rw [hct]
  refine ⟨solid_of_first ⟨c, t, rfl, fun h => hother ?_⟩, ?_⟩
  · exact List.mem_append_left ['['] h
  · rintro d hd rfl
    obtain rfl := Option.some.inj hd
    exact hother (by simp)

theorem assign?_plug {frames : List Frame} (hfresh : Fresh frames) {inner : Fields} {name : String}
    (hnew : name ∉ names inner) (v : Toml) :
    Section.assign? ⟨plug frames inner, pathOf frames⟩ [name] v =
      some ⟨plug frames (inner ++ [(name, .value v)]), pathOf frames⟩ := by
  have hassign : assignIn? [name] v .header inner = some (inner ++ [(name, .value v)]) := by
    have hnone := get?_of_notMem hnew
    have hput := put_of_notMem hnew (.value v)
    simp only [assignIn?, List.getLast?_singleton, List.dropLast_singleton, changeAt, List.isEmpty_nil,
      Bool.not_true, Bool.false_and, Bool.false_eq_true, if_false, hnone, hput, Option.isSome_none]
  rw [Section.assign?]
  dsimp only
  rw [changeAt_plug hfresh, hassign]
  rfl

theorem reads_value {frames : List Frame} (hfresh : Fresh frames) {inner : Fields} {name : String}
    (hname : isBare name.toList = true) (hnew : name ∉ names inner) {v : Toml} (hv : v.IsPlain)
    {value : String} (hvalue : valueText? v = some value) :
    Reads (name.toList ++ " = ".toList ++ value.toList ++ ['\n']) ⟨plug frames inner, pathOf frames⟩
      ⟨plug frames (inner ++ [(name, .value v)]), pathOf frames⟩ := by
  intro rest fuel hfuel
  obtain ⟨hsolid, hfirst⟩ := solid_bare hname
  have htext : name.toList ++ " = ".toList ++ value.toList ++ ['\n'] ++ rest =
      name.toList ++ ' ' :: '=' :: ' ' :: (value.toList ++ '\n' :: rest) := by
    simp
  rw [htext] at hfuel ⊢
  obtain ⟨fuel, rfl⟩ := Nat.exists_eq_succ_of_ne_zero (by omega : fuel ≠ 0)
  have hkey : key? (name.toList ++ ' ' :: '=' :: ' ' :: (value.toList ++ '\n' :: rest)) =
      some ([name], '=' :: ' ' :: (value.toList ++ '\n' :: rest)) := by
    have hdotted : dotted [name] = name.toList := by simp [dotted]
    rw [← hdotted]
    refine keyRest?_dotted (List.cons_ne_nil _ _) (by simpa using hname) (by decide) ?_ (Nat.le_add_left 1 78)
    intro u hu
    cases hu
  have hread : valueRest? (2 * (' ' :: (value.toList ++ '\n' :: rest)).length + 2) maxNesting
      (skipGap (' ' :: (value.toList ++ '\n' :: rest))) = some (v, '\n' :: rest) := by
    have hgap : skipGap (' ' :: (value.toList ++ '\n' :: rest)) = value.toList ++ '\n' :: rest := by
      obtain ⟨c, t, hct, hc, -⟩ := (solid_plain hv hvalue).append ('\n' :: rest)
      have hdrop : skipGap (' ' :: c :: t) = skipGap (c :: t) := by rfl
      rw [hct, hdrop, skipGap, List.dropWhile_cons_of_neg (by rw [hc]; exact Bool.false_ne_true)]
    rw [hgap]
    refine valueRest?_plain hv hvalue ⟨_, _, rfl, by decide⟩ ?_ 78
    rw [List.length_cons]
    omega
  refine ⟨fuel, ?_, linesRest?_value (hsolid.append _) ?_ hkey hread (assign?_plug hfresh hnew v) rfl⟩
  · simp only [List.length_append, List.length_cons] at hfuel
    omega
  · intro t ht
    obtain ⟨c, u, hcu, -⟩ := hsolid
    rw [hcu] at ht hfirst
    exact hfirst c rfl (List.cons.inj ht).1

theorem exists_first_dotted {name : String} (hname : isBare name.toList = true) (path : List String) :
    ∃ c s, (∀ t, dotted (name :: path) ++ t = c :: (s ++ t)) ∧ c ≠ '[' := by
  obtain ⟨⟨c, s, hcs, -⟩, hfirst⟩ := solid_bare hname
  rw [hcs] at hfirst
  cases path with
  | nil => exact ⟨c, s, fun t => by simp [dotted, hcs], hfirst c rfl⟩
  | cons next path =>
    exact ⟨c, s ++ '.' :: dotted (next :: path), fun t => by simp [dotted_cons, hcs], hfirst c rfl⟩

/-- The line of a header. -/
def headerLine (path : List String) : List Char := '[' :: (dotted path ++ [']', '\n'])

theorem openTable?_plug {frames : List Frame} (hfresh : Fresh frames) {inner : Fields} {name : String}
    (hnew : name ∉ names inner) :
    openTable? (pathOf frames ++ [name]) (plug frames inner) = some (plug (frames ++ [⟨inner, name⟩]) []) := by
  rw [openTable?, List.getLast?_concat]
  simp only [List.dropLast_concat]
  rw [changeAt_plug hfresh, get?_of_notMem hnew, put_of_notMem hnew, plug_concat]
  rfl

theorem reads_header {frames : List Frame} (hfresh : Fresh frames) {inner : Fields} {name : String}
    (hnew : name ∉ names inner) (hbare : ∀ part ∈ pathOf frames ++ [name], isBare part.toList = true)
    (hdepth : (pathOf frames ++ [name]).length ≤ maxNesting) (path : List String) :
    Reads ('\n' :: headerLine (pathOf frames ++ [name])) ⟨plug frames inner, path⟩
      ⟨plug (frames ++ [⟨inner, name⟩]) [], pathOf (frames ++ [⟨inner, name⟩])⟩ := by
  intro rest fuel hfuel
  have hopen := openTable?_plug hfresh hnew
  rw [pathOf_concat]
  have hne : pathOf frames ++ [name] ≠ [] := by simp
  generalize pathOf frames ++ [name] = full at *
  have htext : '\n' :: headerLine full ++ rest = '\n' :: '[' :: (dotted full ++ ']' :: '\n' :: rest) := by
    simp [headerLine]
  rw [htext] at hfuel ⊢
  simp only [List.length_append, List.length_cons] at hfuel
  obtain ⟨fuel, rfl⟩ := Nat.exists_eq_add_of_le' (by omega : 2 ≤ fuel)
  have hkey : key? (dotted full ++ ']' :: '\n' :: rest) = some (full, ']' :: '\n' :: rest) :=
    keyRest?_dotted hne hbare (by decide) (fun u hu => by cases hu) hdepth
  have hfirst : ∀ t, dotted full ++ ']' :: '\n' :: rest ≠ '[' :: t := by
    intro t ht
    obtain ⟨first, others, rfl⟩ := List.exists_cons_of_ne_nil hne
    obtain ⟨c, u, hcu, hc⟩ := exists_first_dotted (List.forall_mem_cons.mp hbare).1 others
    rw [hcu] at ht
    exact hc (List.cons.inj ht).1
  have hlines : skipLines (fuel + 1) ('\n' :: '[' :: (dotted full ++ ']' :: '\n' :: rest)) =
      '[' :: (dotted full ++ ']' :: '\n' :: rest) :=
    skipLines_line ⟨_, _, rfl, by decide, by decide⟩ fuel
  exact ⟨fuel + 1, by omega, linesRest?_header hlines hfirst hkey hopen rfl⟩

/-! ## Tables -/

/-- The values of a table, under construction. -/
def valueParts (fields : List (String × Toml)) : Fields := (ownValues fields).map fun f => (f.1, .value f.2)

/-- The tables of a table, under construction. -/
def tableParts : List (String × Toml) → Fields
  | [] => []
  | (name, .table inner) :: fields =>
    (name, .table .header (valueParts inner ++ tableParts inner)) :: tableParts fields
  | _ :: fields => tableParts fields

theorem valueParts_nil : valueParts [] = [] := rfl

theorem valueParts_value {v : Toml} (hv : v.IsPlain) (name : String) (fields : List (String × Toml)) :
    valueParts ((name, v) :: fields) = (name, .value v) :: valueParts fields := by
  rw [valueParts, ownValues_value hv]
  rfl

theorem tableParts_nil : tableParts [] = [] := by rw [tableParts]

theorem tableParts_value {v : Toml} (hv : v.IsPlain) (name : String) (fields : List (String × Toml)) :
    tableParts ((name, v) :: fields) = tableParts fields := by
  rw [tableParts]
  exact fun _ inner h => not_table_of_plain hv inner (Prod.mk.inj h).2

theorem not_mem_names_concat {inner : Fields} {others : List String}
    (h : ∀ other ∈ others, other ∉ names inner) {name : String} (hname : name ∉ others) (p : Part) :
    ∀ other ∈ others, other ∉ names (inner ++ [(name, p)]) := by
  intro other hother hmem
  rw [names, List.map_append] at hmem
  rcases List.mem_append.mp hmem with hmem | hmem
  · exact h other hother hmem
  · obtain rfl := List.mem_singleton.mp hmem
    exact hname hother

theorem not_mem_names_nil (fields : List (String × Toml)) :
    ∀ name ∈ names fields, name ∉ names ([] : Fields) := fun _ _ => List.not_mem_nil

theorem mem_names_of_ownTables {name : String} {fields : List (String × Toml)}
    (h : name ∈ names (ownTables fields)) : name ∈ names fields := by
  induction fields using ownTables.induct with
  | case1 => simp [ownTables, names] at h
  | case2 other inner fields _ ih =>
    rw [ownTables] at h
    rcases List.mem_cons.mp h with rfl | h
    · exact List.mem_cons_self
    · exact List.mem_cons_of_mem _ (ih h)
  | case3 field fields hfield ih =>
    rw [ownTables.eq_3 _ _ hfield] at h
    exact List.mem_cons_of_mem _ (ih h)

theorem names_valueParts_subset {name : String} {fields : List (String × Toml)}
    (h : name ∈ names (valueParts fields)) : name ∈ names fields := by
  simp only [names, valueParts, ownValues, List.map_map, List.mem_map, List.mem_filter] at h ⊢
  obtain ⟨f, ⟨hf, -⟩, hname⟩ := h
  exact ⟨f, hf, hname⟩

theorem Writable.apart {depth : Nat} {fields : List (String × Toml)} (h : Writable depth fields) :
    ∀ name ∈ names (ownTables fields), name ∉ names (valueParts fields) := by
  induction h with
  | nil => simp [ownTables, names]
  | value hname hfield hv hfields ih =>
    rw [ownTables_value hv, valueParts_value hv]
    intro other hother hmem
    rcases List.mem_cons.mp hmem with rfl | hmem
    · exact hfield (mem_names_of_ownTables hother)
    · exact ih other hother hmem
  | table hname hfield hinner hfields _ ih =>
    rw [ownTables]
    intro other hother hmem
    rcases List.mem_cons.mp hother with rfl | hother
    · exact hfield (names_valueParts_subset hmem)
    · exact ih other hother hmem

theorem reads_values {depth : Nat} {fields : List (String × Toml)} (h : Writable depth fields)
    {frames : List Frame} (hfresh : Fresh frames) {text : String} (htext : valueLines? fields = some text)
    {inner : Fields} (hnew : ∀ name ∈ names fields, name ∉ names inner) :
    Reads text.toList ⟨plug frames inner, pathOf frames⟩
      ⟨plug frames (inner ++ valueParts fields), pathOf frames⟩ := by
  induction h generalizing text inner with
  | nil =>
    obtain rfl := Option.some.inj htext
    rw [valueParts_nil, List.append_nil]
    exact Reads.nil _
  | @value depth name v fields hname hfield hv hfields ih =>
    obtain ⟨value, rest, hvalue, hrest, hlines⟩ := valueLines?_value hv hname htext
    obtain ⟨hhere, hothers⟩ := List.forall_mem_cons.mp hnew
    have hnew' := not_mem_names_concat hothers hfield (.value v)
    have hparts : inner ++ valueParts ((name, v) :: fields) =
        inner ++ [(name, .value v)] ++ valueParts fields := by
      rw [valueParts_value hv, List.append_assoc, List.singleton_append]
    rw [hlines, hparts]
    exact (reads_value hfresh hname hhere hv hvalue).append (ih hrest hnew')
  | @table depth name below fields hname hfield hbelow hfields _ ih =>
    exact ih htext fun other hother => hnew other (List.mem_cons_of_mem _ hother)

/-- The sections of a table, each with an empty line before it. -/
def spaced (texts : List String) : List Char := texts.flatMap fun text => '\n' :: text.toList

theorem headerText {path : List String} (hbare : ∀ part ∈ path, isBare part.toList = true) (own : String) :
    ("[" ++ ".".intercalate (path.map keyText) ++ "]\n" ++ own).toList = headerLine path ++ own.toList := by
  have hkeys : path.map keyText = path := by
    conv_rhs => rw [← List.map_id path]
    exact List.map_congr_left fun part hpart => if_pos (hbare part hpart)
  rw [hkeys]
  simp only [String.toList_append, String.toList_intercalate, headerLine, dotted]
  simp

/-- The header of a table with the lines of its own values opens the table and adds the values to it. -/
theorem reads_section {frames : List Frame} (hfresh : Fresh frames) {inner : Fields} {name : String}
    (hnew : name ∉ names inner) (hbare : ∀ part ∈ pathOf frames ++ [name], isBare part.toList = true)
    (hdepth : (pathOf frames ++ [name]).length ≤ maxNesting) {depth : Nat} {fields : List (String × Toml)}
    (h : Writable depth fields) {own : String} (hown : valueLines? fields = some own) (path : List String) :
    Reads ('\n' :: headerLine (pathOf frames ++ [name]) ++ own.toList) ⟨plug frames inner, path⟩
      ⟨plug (frames ++ [⟨inner, name⟩]) (valueParts fields), pathOf (frames ++ [⟨inner, name⟩])⟩ := by
  have hfresh' : Fresh (frames ++ [⟨inner, name⟩]) := hfresh.concat hnew
  have hvalues := reads_values h hfresh' hown (not_mem_names_nil fields)
  exact (reads_header hfresh hnew hbare hdepth path).append hvalues

theorem reads_sections {depth : Nat} {fields : List (String × Toml)} (h : Writable depth fields)
    {frames : List Frame} (hfresh : Fresh frames)
    (hbare : ∀ part ∈ pathOf frames, isBare part.toList = true)
    (hdepth : (pathOf frames).length + depth ≤ maxNesting) {texts : List String}
    (htexts : sections? (pathOf frames) fields = some texts) {inner : Fields}
    (hnew : ∀ name ∈ names (ownTables fields), name ∉ names inner) (path : List String) :
    ∃ path', Reads (spaced texts) ⟨plug frames inner, path⟩
      ⟨plug frames (inner ++ tableParts fields), path'⟩ := by
  induction h generalizing frames texts inner path with
  | nil =>
    rw [sections?] at htexts
    obtain rfl := Option.some.inj htexts
    rw [tableParts_nil, List.append_nil]
    exact ⟨path, Reads.nil _⟩
  | @value depth name v fields hname hfield hv hfields ih =>
    rw [sections?_value hv] at htexts
    rw [ownTables_value hv] at hnew
    rw [tableParts_value hv]
    exact ih hfresh hbare hdepth htexts hnew path
  | @table depth name below fields hname hfield hbelow hfields ihbelow ih =>
    obtain ⟨own, deeper, rest, hown, hdeeper, hrest, rfl⟩ := sections?_table htexts
    rw [ownTables] at hnew
    obtain ⟨hhere, hothers⟩ : name ∉ names inner ∧ ∀ other ∈ names (ownTables fields), other ∉ names inner :=
      List.forall_mem_cons.mp hnew
    have hbare' : ∀ part ∈ pathOf frames ++ [name], isBare part.toList = true := by
      simpa [or_imp, forall_and] using ⟨hbare, hname⟩
    have hlength : (pathOf frames ++ [name]).length = (pathOf frames).length + 1 := List.length_append
    have htext : spaced (("[" ++ ".".intercalate ((pathOf frames ++ [name]).map keyText) ++ "]\n" ++ own) ::
        (deeper ++ rest)) =
        ('\n' :: headerLine (pathOf frames ++ [name]) ++ own.toList) ++ (spaced deeper ++ spaced rest) := by
      rw [spaced, List.flatMap_cons, List.flatMap_append, headerText hbare' own]
      rfl
    -- the section of the table itself, then those of the tables in it, then those of the tables after it
    have hsection := reads_section hfresh hhere hbare' (by omega) hbelow hown path
    rw [← pathOf_concat frames ⟨inner, name⟩] at hbare' hlength hdeeper
    obtain ⟨path', hinside⟩ := ihbelow (hfresh.concat hhere) hbare' (by omega) hdeeper hbelow.apart
      (pathOf (frames ++ [⟨inner, name⟩]))
    rw [plug_concat _ _ (valueParts below ++ _)] at hinside
    have hother : name ∉ names (ownTables fields) := fun h => hfield (mem_names_of_ownTables h)
    obtain ⟨path'', hafter⟩ := ih hfresh hbare hdepth hrest (not_mem_names_concat hothers hother _) path'
    have hparts : inner ++ tableParts ((name, .table below) :: fields) =
        inner ++ [(name, .table .header (valueParts below ++ tableParts below))] ++ tableParts fields := by
      rw [tableParts, List.append_assoc, List.singleton_append]
    rw [htext, hparts]
    exact ⟨path'', hsection.append (hinside.append hafter)⟩

/-! ## Documents -/

theorem fieldsToToml_append (a b : Fields) : fieldsToToml (a ++ b) = fieldsToToml a ++ fieldsToToml b := by
  induction a with
  | nil => rfl
  | cons f a ih => rw [List.cons_append, fieldsToToml, fieldsToToml, ih, List.cons_append]

theorem fieldsToToml_valueParts (fields : List (String × Toml)) :
    fieldsToToml (valueParts fields) = ownValues fields := by
  rw [valueParts]
  induction ownValues fields with
  | nil => rfl
  | cons f fields ih => rw [List.map_cons, fieldsToToml, ih, Part.toToml]

theorem fieldsToToml_tableParts (fields : List (String × Toml)) :
    fieldsToToml (tableParts fields) = ownTables fields := by
  induction fields using ownTables.induct with
  | case1 => rw [tableParts, ownTables, fieldsToToml]
  | case2 name inner fields ihinner ih =>
    rw [tableParts, ownTables, fieldsToToml, ih, Part.toToml, fieldsToToml_append, fieldsToToml_valueParts,
      ihinner]
  | case3 field fields hfield ih => rw [tableParts.eq_3 _ _ hfield, ownTables.eq_3 _ _ hfield, ih]

theorem valueLines?_first {depth : Nat} {fields : List (String × Toml)} (h : Writable depth fields)
    {text : String} (htext : valueLines? fields = some text) :
    ∀ c ∈ text.toList.head?, isBareKey c = true := by
  induction h generalizing text with
  | nil =>
    obtain rfl := Option.some.inj htext
    exact fun c hc => by cases hc
  | value hname hfield hv hfields ih =>
    obtain ⟨value, rest, -, -, hlines⟩ := valueLines?_value hv hname htext
    obtain ⟨hne, hkey⟩ := isBareKey_of_isBare hname
    obtain ⟨d, t, hdt⟩ := List.exists_cons_of_ne_nil hne
    intro c hc
    rw [hlines, hdt] at hc
    obtain rfl := Option.some.inj hc
    exact hkey d (by rw [hdt]; exact List.mem_cons_self)
  | table hname hfield hinner hfields _ ih => exact ih htext

theorem sections?_first {depth : Nat} {fields : List (String × Toml)} (h : Writable depth fields)
    {path : List String} {texts : List String} (htexts : sections? path fields = some texts) :
    ∀ text ∈ texts.head?, ∃ t, text.toList = '[' :: t := by
  induction h with
  | nil =>
    rw [sections?] at htexts
    obtain rfl := Option.some.inj htexts
    exact fun text htext => by cases htext
  | value hname hfield hv hfields ih => exact ih (sections?_value hv path _ _ ▸ htexts)
  | table hname hfield hinner hfields _ ih =>
    obtain ⟨own, deeper, rest, -, -, -, rfl⟩ := sections?_table htexts
    intro text htext
    obtain rfl := Option.some.inj htext
    exact ⟨_, by simp only [String.toList_append]; rfl⟩

theorem document_first {depth : Nat} {fields : List (String × Toml)} (h : Writable depth fields)
    {own : String} (hown : valueLines? fields = some own) (texts : List String) :
    ∀ c ∈ (own.toList ++ spaced texts).head?, c ≠ Char.ofNat 0xFEFF := by
  have hkey := valueLines?_first h hown
  rintro c hc rfl
  cases hchars : own.toList with
  | nil =>
    rw [hchars] at hc
    cases texts with
    | nil => cases hc
    | cons text texts => exact absurd (Option.some.inj hc) (by decide)
  | cons d t =>
    rw [hchars] at hc hkey
    obtain rfl := Option.some.inj hc
    exact absurd (hkey _ rfl) (by decide)

theorem withoutMark_of_first {s : List Char} (h : ∀ c ∈ s.head?, c ≠ Char.ofNat 0xFEFF) :
    withoutMark s = s := by
  cases s with
  | nil => rfl
  | cons c s => exact if_neg (by simpa using h c rfl)

theorem toList_intercalate_cons (text : String) (texts : List String) :
    ("\n".intercalate (text :: texts)).toList = text.toList ++ spaced texts := by
  have hseparator : "\n".toList = ['\n'] := by rfl
  rw [String.toList_intercalate, hseparator]
  induction texts generalizing text with
  | nil => simp [spaced]
  | cons next texts ih =>
    have hstep : List.intercalate ['\n'] ((text :: next :: texts).map String.toList) =
        text.toList ++ '\n' :: List.intercalate ['\n'] ((next :: texts).map String.toList) := by
      simp [List.intercalate]
    rw [hstep, ih, spaced, spaced, List.flatMap_cons]
    rfl

/-- The text of a document has its own values and its sections; without values it begins with the first
section, with no empty line before it. -/
theorem document?_text {fields : List (String × Toml)} {text : String}
    (h : document? (.table fields) = some text) :
    ∃ own texts, valueLines? fields = some own ∧ sections? [] fields = some texts ∧
      (text.toList = own.toList ++ spaced texts ∨
        own = "" ∧ ∃ first others, texts = first :: others ∧ text.toList = first.toList ++ spaced others) := by
  rw [document?] at h
  cases hown : valueLines? fields with
  | none => simp [hown] at h
  | some own =>
    cases htexts : sections? [] fields with
    | none => simp [hown, htexts] at h
    | some texts =>
      simp only [hown, htexts] at h
      obtain rfl := Option.some.inj h
      refine ⟨own, texts, rfl, rfl, ?_⟩
      by_cases hempty : own.isEmpty = true
      · rw [if_pos hempty]
        rw [String.isEmpty_iff] at hempty
        subst hempty
        cases texts with
        | nil => exact .inl rfl
        | cons first others => exact .inr ⟨rfl, first, others, rfl, toList_intercalate_cons first others⟩
      · rw [if_neg hempty]
        exact .inl (toList_intercalate_cons own texts)

theorem Reads.whole {text : List Char} {a b : Section} (h : Reads text a b) {fuel : Nat}
    (hfuel : text.length < 2 * fuel) : linesRest? fuel a text = some b := by
  obtain ⟨fuel', hfuel', heq⟩ := h [] fuel (by rwa [List.append_nil])
  obtain ⟨fuel', rfl⟩ := Nat.exists_eq_succ_of_ne_zero (by omega : fuel' ≠ 0)
  rw [List.append_nil] at heq
  rw [heq, linesRest?]
  cases fuel' <;> rfl

theorem linesRest?_line {s : List Char} (h : Solid s) (fuel : Nat) (a : Section) :
    linesRest? (fuel + 2) a ('\n' :: s) = linesRest? (fuel + 2) a s := by
  rw [linesRest?, linesRest?, skipLines_line h, skipLines_solid h]

/-- The document of a table is read as that table, with its values before its tables. -/
theorem read?_document {depth : Nat} {fields : List (String × Toml)} (h : Writable depth fields)
    (hdepth : depth ≤ maxNesting) {text : String} (htext : document? (.table fields) = some text) :
    read? text = some (.table (arranged fields)) := by
  obtain ⟨own, texts, hown, htexts, hchars⟩ := document?_text htext
  have hfresh : Fresh [] := nofun
  have hvalues := reads_values h hfresh hown (not_mem_names_nil fields)
  obtain ⟨path, hsections⟩ := reads_sections h hfresh nofun (by simpa [pathOf] using hdepth) htexts h.apart []
  have hreads := hvalues.append hsections
  have hresult : .table (fieldsToToml (valueParts fields ++ tableParts fields)) = table (arranged fields) := by
    rw [fieldsToToml_append, fieldsToToml_valueParts, fieldsToToml_tableParts, arranged]
  have hlines : withoutMark text.toList = text.toList ∧
      linesRest? (text.toList.length + 1) ⟨[], []⟩ text.toList =
        some ⟨valueParts fields ++ tableParts fields, path⟩ := by
    rcases hchars with hchars | ⟨rfl, first, others, rfl, hchars⟩
    · rw [hchars]
      exact ⟨withoutMark_of_first (document_first h hown texts), hreads.whole (by omega)⟩
    · obtain ⟨t, ht⟩ := sections?_first h htexts first rfl
      have htext : text.toList = '[' :: (t ++ spaced others) := by rw [hchars, ht, List.cons_append]
      have hsolid : Solid text.toList := solid_of_first ⟨'[', _, htext, by decide⟩
      have hspaced : "".toList ++ spaced (first :: others) = '\n' :: text.toList := by
        rw [hchars, spaced, List.flatMap_cons]
        rfl
      rw [hspaced] at hreads
      have hbound : ('\n' :: text.toList).length < 2 * (text.toList.length + 1) := by
        rw [List.length_cons]
        omega
      have hwhole := hreads.whole hbound
      constructor
      · rw [htext]
        rfl
      · rw [htext] at hwhole hsolid ⊢
        exact (linesRest?_line hsolid _ _).symm.trans hwhole
  obtain ⟨hmark, hlines⟩ := hlines
  rw [read?]
  simp only [hmark, hlines, Option.bind_eq_bind, Option.bind_some, hresult]

/-! ## Which tables have a document -/

mutual

/-- Whether all integers of a value are integers of the format. -/
def fits : Toml → Bool
  | integer n => isInteger n
  | array items => fitsItems items
  | table fields => fitsFields fields
  | string _ | float _ | boolean _ | moment _ => true

def fitsItems : List Toml → Bool
  | [] => true
  | v :: vs => v.fits && fitsItems vs

def fitsFields : List (String × Toml) → Bool
  | [] => true
  | (_, v) :: fields => v.fits && fitsFields fields

end

mutual

theorem valueText?_isSome : ∀ v : Toml, (valueText? v).isSome = v.fits
  | string _ | float _ | boolean _ | moment _ => rfl
  | integer n => by
    rw [valueText?, fits]
    split <;> simp_all
  | array items => by rw [valueText?, Option.isSome_map, itemTexts?_isSome items, fits]
  | table fields => by rw [valueText?, Option.isSome_map, pairTexts?_isSome fields, fits]

theorem itemTexts?_isSome : ∀ items : List Toml, (itemTexts? items).isSome = fitsItems items
  | [] => rfl
  | v :: vs => by
    rw [fitsItems, ← valueText?_isSome v, ← itemTexts?_isSome vs, itemTexts?]
    cases valueText? v <;> cases itemTexts? vs <;> rfl

theorem pairTexts?_isSome : ∀ fields : List (String × Toml), (pairTexts? fields).isSome = fitsFields fields
  | [] => rfl
  | (name, v) :: fields => by
    rw [fitsFields, ← valueText?_isSome v, ← pairTexts?_isSome fields, pairTexts?]
    cases valueText? v <;> cases pairTexts? fields <;> rfl

end

theorem sections?_isSome (path : List String) (fields : List (String × Toml)) :
    ((valueLines? fields).isSome && (sections? path fields).isSome) = fitsFields fields := by
  induction path, fields using sections?.induct with
  | case1 path => rw [valueLines?, sections?, fitsFields]; rfl
  | case2 path name inner fields _ hinner ih =>
    rw [fitsFields, fits, ← hinner, ← ih, valueLines?, sections?]
    dsimp only
    cases valueLines? inner <;> cases sections? (path ++ [name]) inner <;> cases valueLines? fields <;>
      cases sections? path fields <;> rfl
  | case3 path field fields hfield ih =>
    obtain ⟨name, v⟩ := field
    rw [fitsFields, ← ih, sections?.eq_3 _ _ _ hfield, valueLines?, ← valueText?_isSome]
    · cases valueText? v <;> cases valueLines? fields <;> cases sections? path fields <;> rfl
    · rintro inner rfl
      exact hfield name inner rfl

theorem document?_isSome (fields : List (String × Toml)) :
    (document? (.table fields)).isSome = fitsFields fields := by
  rw [document?, ← sections?_isSome []]
  cases valueLines? fields <;> cases sections? [] fields <;> rfl

end PlainSteps.Toml
