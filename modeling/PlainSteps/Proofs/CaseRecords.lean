import Mathlib.Data.List.Nodup
import PlainSteps.CaseFile

/-!
# The record of a case

`CaseFile.case?_eq_some_iff`: a record is read as a case when each field of the case has the value that the
record gives for it, or its usual value where the record gives none. The steps have no usual value, and the
identifier has the one that is supplied.

* `IsRecord` : a map whose keys can be keys of fields and that gives no field twice, or a list that is not too
  long.
* `Gives` : a record gives a value for a field, under the name of the field or its number, or at its place.
* `Slots` : the values by number are those that the record gives. For a map this is `slots_of_slots?`, for a list
  `slots_zip`.
-/

namespace PlainSteps.CaseFile

/-! ## Keys -/

/-- A key that can be the key of a field. -/
inductive IsKey : Yaml → Prop
  | text (s : String) : IsKey (.string s)
  | number (n : Nat) : IsKey (.number (.whole n))

/-- A key stands for a field: it is its name, or its number. -/
inductive KeyOf (names : List String) (name : String) : Yaml → Prop
  | text (h : name ∈ names) : KeyOf names name (.string name)
  | number {i : Nat} (h : names[i]? = some name) : KeyOf names name (.number (.whole i))

section keys

variable {names : List String} {key : Yaml} {name : String} {i : Nat}

theorem slot?_eq_none_iff : slot? names key = none ↔ ¬IsKey key := by
  constructor
  · rintro h ⟨s⟩
    · cases h
    · simp [slot?] at h
  · intro h
    cases key with
    | string s => exact absurd (.text s) h
    | number x =>
      cases x with
      | whole n =>
        by_cases hn : n < 0
        · rw [slot?, if_pos hn]
        · obtain ⟨k, rfl⟩ := Int.eq_ofNat_of_zero_le (Int.not_lt.mp hn)
          exact absurd (.number k) h
      | double x => rfl
    | _ => rfl

theorem isKey_of_slot? {slot : Option Nat} (h : slot? names key = some slot) : IsKey key := by
  by_contra hkey
  rw [slot?_eq_none_iff.mpr hkey] at h
  cases h

theorem findIdx?_eq_some_iff (hnames : names.Nodup) :
    names.findIdx? (· == name) = some i ↔ names[i]? = some name := by
  rw [List.findIdx?_eq_some_iff_getElem, List.getElem?_eq_some_iff]
  constructor
  · rintro ⟨hi, hname, -⟩
    exact ⟨hi, eq_of_beq hname⟩
  · rintro ⟨hi, rfl⟩
    refine ⟨hi, beq_self_eq_true _, fun j hj heq => ?_⟩
    exact Nat.ne_of_lt hj (hnames.getElem_inj_iff.mp (eq_of_beq heq))

theorem slot?_number_iff {n : Int} :
    slot? names (.number (.whole n)) = some (some i) ↔ n = i ∧ i < names.length := by
  rw [slot?, Option.ite_none_left_eq_some, Option.some.injEq, Option.ite_none_right_eq_some, Option.some.injEq]
  omega

theorem slot?_eq_some_iff (hnames : names.Nodup) (hname : names[i]? = some name) :
    slot? names key = some (some i) ↔ KeyOf names name key := by
  have hmem : name ∈ names := List.mem_of_getElem? hname
  constructor
  · intro h
    cases key with
    | string s =>
      have hs := (findIdx?_eq_some_iff hnames).mp (Option.some.inj h)
      obtain rfl : name = s := Option.some.inj (hname.symm.trans hs)
      exact .text hmem
    | number x =>
      cases x with
      | whole n =>
        obtain ⟨rfl, -⟩ := slot?_number_iff.mp h
        exact .number hname
      | double x => cases h
    | _ => cases h
  · rintro (h | @⟨k, hk⟩)
    · exact congrArg some ((findIdx?_eq_some_iff hnames).mpr hname)
    · have hlt : k < names.length := (List.getElem?_eq_some_iff.mp hk).1
      obtain rfl : k = i := (List.getElem?_inj hlt hnames).mp (hk.trans hname.symm)
      exact slot?_number_iff.mpr ⟨rfl, hlt⟩

theorem keyOf_iff (hnames : names.Nodup) {j : Nat} (hslot : slot? names key = some (some j))
    (hname : names[i]? = some name) : KeyOf names name key ↔ j = i := by
  rw [← slot?_eq_some_iff hnames hname, hslot, Option.some.injEq, Option.some.injEq]

theorem KeyOf.mem (h : KeyOf names name key) : name ∈ names := by
  cases h with
  | text h => exact h
  | number h => exact List.mem_of_getElem? h

theorem not_keyOf (hnames : names.Nodup) (h : slot? names key = some none) : ¬KeyOf names name key := by
  intro hkey
  obtain ⟨i, hi⟩ := List.getElem?_of_mem hkey.mem
  rw [(slot?_eq_some_iff hnames hi).mpr hkey] at h
  cases h

theorem exists_name (hnames : names.Nodup) (h : slot? names key = some (some i)) :
    ∃ name, names[i]? = some name := by
  cases key with
  | string s => exact ⟨s, (findIdx?_eq_some_iff hnames).mp (Option.some.inj h)⟩
  | number x =>
    cases x with
    | whole n =>
      exact ⟨_, List.getElem?_eq_getElem (slot?_number_iff.mp h).2⟩
    | double x => cases h
  | _ => cases h

end keys

/-! ## Records -/

/-- No two fields of a map stand for the same one. -/
def GivesOnce (names : List String) (fields : List (Yaml × Yaml)) : Prop :=
  fields.Pairwise fun f g => ∀ name, KeyOf names name f.1 → ¬KeyOf names name g.1

inductive IsRecord (names : List String) : Yaml → Prop
  | map {fields : List (Yaml × Yaml)} (hkeys : ∀ f ∈ fields, IsKey f.1) (honce : GivesOnce names fields) :
      IsRecord names (.map fields)
  | list {items : List Yaml} (hlength : items.length ≤ names.length) : IsRecord names (.list items)

/-- A record gives a value for a field. -/
inductive Gives (names : List String) (name : String) (v : Yaml) : Yaml → Prop
  | keyed {fields : List (Yaml × Yaml)} {key : Yaml} (hfield : (key, v) ∈ fields)
      (hkey : KeyOf names name key) : Gives names name v (.map fields)
  | placed {items : List Yaml} {i : Nat} (hname : names[i]? = some name) (hitem : items[i]? = some v) :
      Gives names name v (.list items)

/-- The values by number are those that a record gives. -/
def Slots (names : List String) (record : Yaml) (slots : List (Nat × Yaml)) : Prop :=
  ∀ {i name v}, names[i]? = some name → (value? slots i = some v ↔ Gives names name v record)

section records

variable {names : List String}

theorem gives_nil {name : String} {v : Yaml} : ¬Gives names name v (.map []) := by
  rintro ⟨hfield, -⟩
  cases hfield

theorem gives_cons {name : String} {v : Yaml} {key w : Yaml} {fields : List (Yaml × Yaml)} :
    Gives names name v (.map ((key, w) :: fields)) ↔
      (KeyOf names name key ∧ w = v) ∨ Gives names name v (.map fields) := by
  constructor
  · rintro @⟨_, key', hfield, hkey⟩
    rcases List.mem_cons.mp hfield with heq | hfield
    · cases heq
      exact .inl ⟨hkey, rfl⟩
    · exact .inr (.keyed hfield hkey)
  · rintro (⟨hkey, rfl⟩ | @⟨_, key', hfield, hkey⟩)
    · exact .keyed List.mem_cons_self hkey
    · exact .keyed (List.mem_cons_of_mem _ hfield) hkey

theorem value?_cons (i j : Nat) (v : Yaml) (slots : List (Nat × Yaml)) :
    value? ((j, v) :: slots) i = if j = i then some v else value? slots i := by
  rw [value?, List.find?_cons, value?]
  by_cases h : j = i
  · simp [h]
  · simp [h, beq_eq_false_iff_ne.mpr h]

theorem any_slot_iff {i : Nat} {slots : List (Nat × Yaml)} :
    slots.any (·.1 == i) = true ↔ ∃ v, value? slots i = some v := by
  induction slots with
  | nil => simp [value?]
  | cons slot slots ih =>
    obtain ⟨j, w⟩ := slot
    rw [List.any_cons, Bool.or_eq_true, ih, value?_cons, beq_iff_eq]
    by_cases h : j = i <;> simp [h]

theorem IsRecord.cons {fields : List (Yaml × Yaml)} {key w : Yaml} (h : IsRecord names (.map fields))
    (hkey : IsKey key) (hnew : ∀ {name v}, KeyOf names name key → ¬Gives names name v (.map fields)) :
    IsRecord names (.map ((key, w) :: fields)) := by
  obtain ⟨hkeys, honce⟩ := h
  refine .map (List.forall_mem_cons.mpr ⟨hkey, hkeys⟩) (.cons ?_ honce)
  exact fun _ hf _ hname hname' => hnew hname (.keyed hf hname')

theorem slots_of_slots? (hnames : names.Nodup) {fields : List (Yaml × Yaml)} {slots : List (Nat × Yaml)}
    (h : slots? names fields = some slots) : IsRecord names (.map fields) ∧ Slots names (.map fields) slots := by
  induction fields generalizing slots with
  | nil =>
    obtain rfl : [] = slots := Option.some.inj h
    exact ⟨.map (by simp) .nil, fun _ => iff_of_false (by simp [value?]) gives_nil⟩
  | cons field fields ih =>
    obtain ⟨key, w⟩ := field
    rw [slots?] at h
    split at h
    case h_1 rest hslot hrest =>
      obtain rfl := Option.some.inj h
      obtain ⟨hrecord, hslots⟩ := ih hrest
      have hnone : ∀ {name}, ¬KeyOf names name key := not_keyOf hnames hslot
      refine ⟨hrecord.cons (isKey_of_slot? hslot) fun hkey => absurd hkey hnone, fun hname => ?_⟩
      rw [hslots hname, gives_cons, or_iff_right fun hkey => hnone hkey.1]
    case h_2 j rest hslot hrest =>
      obtain ⟨hnew, hcons⟩ := Option.ite_none_left_eq_some.mp h
      obtain rfl := Option.some.inj hcons
      obtain ⟨hrecord, hslots⟩ := ih hrest
      -- a later field of the same name would have its value under the same number
      have hnone : ∀ {name v}, KeyOf names name key → ¬Gives names name v (.map fields) := by
        intro name v hkey hgives
        obtain ⟨i, hi⟩ := List.getElem?_of_mem hkey.mem
        obtain rfl := (keyOf_iff hnames hslot hi).mp hkey
        exact hnew (any_slot_iff.mpr ⟨v, (hslots hi).mpr hgives⟩)
      refine ⟨hrecord.cons (isKey_of_slot? hslot) hnone, fun {i name v} hname => ?_⟩
      have hkey := keyOf_iff hnames hslot hname
      rw [value?_cons, gives_cons, hkey]
      by_cases hji : j = i
      · simp [hji, hnone (hkey.mpr hji)]
      · simp [hji, hslots hname]
    case h_3 => cases h

theorem exists_slots? (hnames : names.Nodup) {fields : List (Yaml × Yaml)}
    (h : IsRecord names (.map fields)) : ∃ slots, slots? names fields = some slots := by
  induction fields with
  | nil => exact ⟨[], rfl⟩
  | cons field fields ih =>
    obtain ⟨key, w⟩ := field
    obtain ⟨hkeys, honce⟩ := h
    obtain ⟨hkey, hkeys⟩ := List.forall_mem_cons.mp hkeys
    obtain ⟨hnew, honce⟩ := List.pairwise_cons.mp honce
    obtain ⟨rest, hrest⟩ := ih (.map hkeys honce)
    rw [slots?, hrest]
    cases hslot : slot? names key with
    | none => exact absurd hkey (slot?_eq_none_iff.mp hslot)
    | some slot =>
      cases slot with
      | none => exact ⟨rest, rfl⟩
      | some j =>
        obtain ⟨given, hgiven⟩ := exists_name hnames hslot
        refine ⟨_, if_neg fun hany => ?_⟩
        obtain ⟨v, hv⟩ := any_slot_iff.mp hany
        obtain ⟨hfield, hkey'⟩ := ((slots_of_slots? hnames hrest).2 hgiven).mp hv
        exact hnew _ hfield given ((slot?_eq_some_iff hnames hgiven).mp hslot) hkey'

theorem value?_zip (start i : Nat) (items : List Yaml) :
    value? ((List.range' start items.length).zip items) (start + i) = items[i]? := by
  induction items generalizing start i with
  | nil => rfl
  | cons v items ih =>
    rw [List.length_cons, List.range'_succ, List.zip_cons_cons, value?_cons]
    cases i with
    | zero => simp
    | succ i =>
      rw [if_neg (by omega), List.getElem?_cons_succ, ← ih (start + 1) i]
      congr 1
      omega

theorem slots_zip (hnames : names.Nodup) (items : List Yaml) :
    Slots names (.list items) ((List.range items.length).zip items) := by
  intro i name v hname
  have hvalue := value?_zip 0 i items
  rw [← List.range_eq_range', Nat.zero_add] at hvalue
  rw [hvalue]
  constructor
  · exact .placed hname
  · rintro ⟨⟩
    rename_i k hname' hitem
    have hlt : k < names.length := (List.getElem?_eq_some_iff.mp hname').1
    obtain rfl : k = i := (List.getElem?_inj hlt hnames).mp (hname'.trans hname.symm)
    exact hitem

end records

/-! ## Cases -/

/-- A list of texts as a value. -/
def textList (ss : List String) : Yaml := .list (ss.map .string)

theorem text?_eq_some_iff {v : Yaml} {s : String} : text? v = some s ↔ v = .string s := by
  cases v <;> simp [text?]

theorem texts?_eq_some_iff {v : Yaml} {ss : List String} : texts? v = some ss ↔ v = textList ss := by
  have hitems : ∀ items : List Yaml, items.mapM text? = some ss ↔ items = ss.map .string := by
    intro items
    induction items generalizing ss with
    | nil =>
      cases ss with
      | nil => exact iff_of_true rfl rfl
      | cons s ss => exact iff_of_false (nomatch ·) (nomatch ·)
    | cons v items ih =>
      simp only [List.mapM_cons, Option.bind_eq_bind, Option.bind_eq_some_iff, text?_eq_some_iff, ih,
        Option.pure_def, Option.some.injEq]
      constructor
      · rintro ⟨s, rfl, ss, rfl, rfl⟩
        rfl
      · intro h
        cases ss with
        | nil => cases h
        | cons s ss =>
          obtain ⟨rfl, rfl⟩ := List.cons.inj h
          exact ⟨s, rfl, ss, rfl, rfl⟩
  cases v with
  | list items => simp only [texts?, hitems, textList, Yaml.list.injEq]
  | _ => exact iff_of_false (nomatch ·) (nomatch ·)

/-- A field of a case is what the record gives for it, or the usual one where the record gives nothing. -/
def HasField {α : Type} (record : Yaml) (name : String) (form : α → Yaml) (usual : Option α) (x : α) : Prop :=
  Gives caseFields name (form x) record ∨ ((∀ v, ¬Gives caseFields name v record) ∧ usual = some x)

section cases

variable {α : Type} {record : Yaml} {slots : List (Nat × Yaml)} {i : Nat} {name : String} {form : α → Yaml}
  {read : Yaml → Option α} {x : α}

theorem bind_value?_eq_some_iff (hslots : Slots caseFields record slots) (hname : caseFields[i]? = some name)
    (hread : ∀ {v x}, read v = some x ↔ v = form x) :
    (value? slots i).bind read = some x ↔ HasField record name form none x := by
  rw [Option.bind_eq_some_iff, HasField]
  simp only [hslots hname, hread, reduceCtorEq, and_false, or_false, exists_eq_right]

theorem fieldOr_eq_some_iff (hslots : Slots caseFields record slots) (hname : caseFields[i]? = some name)
    (hread : ∀ {v x}, read v = some x ↔ v = form x) {usual : α} :
    fieldOr slots i usual read = some x ↔ HasField record name form (some usual) x := by
  rw [fieldOr, HasField]
  cases hvalue : value? slots i with
  | none =>
    have hnone : ∀ v, ¬Gives caseFields name v record := by
      intro v hgives
      rw [(hslots hname).mpr hgives] at hvalue
      cases hvalue
    simp [hnone]
  | some v =>
    have hgiven : ∀ w, Gives caseFields name w record ↔ v = w := fun w => by
      rw [← hslots hname, hvalue, Option.some.injEq]
    simp only [hread, hgiven]
    refine ⟨.inl, ?_⟩
    rintro (h | ⟨hnone, -⟩)
    · exact h
    · exact absurd rfl (hnone v)

theorem ofFields?_eq_some_iff (hslots : Slots caseFields record slots) {freshId : String} {c : TestCase} :
    ofFields? freshId slots = some c ↔ HasField record "id" .string (some freshId) c.id ∧
      HasField record "name" .string (some "") c.name ∧
      HasField record "description" .string (some "") c.description ∧
      HasField record "tags" textList (some []) c.tags ∧ HasField record "steps" textList none c.steps := by
  have htext : ∀ {v s}, text? v = some s ↔ v = .string s := text?_eq_some_iff
  have htexts : ∀ {v ss}, texts? v = some ss ↔ v = textList ss := texts?_eq_some_iff
  rw [← fieldOr_eq_some_iff hslots (i := 0) rfl htext, ← fieldOr_eq_some_iff hslots (i := 1) rfl htext,
    ← fieldOr_eq_some_iff hslots (i := 2) rfl htext, ← fieldOr_eq_some_iff hslots (i := 3) rfl htexts,
    ← bind_value?_eq_some_iff hslots (i := 4) rfl htexts, ofFields?]
  simp only [Option.bind_eq_bind, Option.bind_eq_some_iff, Option.some.injEq]
  constructor
  · rintro ⟨id, hid, title, htitle, description, hdescription, tags, htags, v, hv, steps, hsteps, rfl⟩
    exact ⟨hid, htitle, hdescription, htags, v, hv, hsteps⟩
  · rintro ⟨hid, hname, hdescription, htags, v, hv, hsteps⟩
    exact ⟨_, hid, _, hname, _, hdescription, _, htags, v, hv, _, hsteps, rfl⟩

theorem case?_eq_some_iff {freshId : String} {c : TestCase} : case? freshId record = some c ↔
    IsRecord caseFields record ∧ HasField record "id" .string (some freshId) c.id ∧
      HasField record "name" .string (some "") c.name ∧
      HasField record "description" .string (some "") c.description ∧
      HasField record "tags" textList (some []) c.tags ∧ HasField record "steps" textList none c.steps := by
  have hnames : caseFields.Nodup := by decide
  cases record with
  | map fields =>
    rw [case?, Option.bind_eq_some_iff]
    constructor
    · rintro ⟨slots, hslots, hc⟩
      obtain ⟨hrecord, hgives⟩ := slots_of_slots? hnames hslots
      exact ⟨hrecord, (ofFields?_eq_some_iff hgives).mp hc⟩
    · rintro ⟨hrecord, hfields⟩
      obtain ⟨slots, hslots⟩ := exists_slots? hnames hrecord
      exact ⟨slots, hslots, (ofFields?_eq_some_iff (slots_of_slots? hnames hslots).2).mpr hfields⟩
  | list items =>
    have hrecord : IsRecord caseFields (.list items) ↔ ¬caseFields.length < items.length := by
      rw [Nat.not_lt]
      exact ⟨fun | .list hlength => hlength, .list⟩
    rw [case?, Option.ite_none_left_eq_some, hrecord, ofFields?_eq_some_iff (slots_zip hnames items)]
  | _ => exact iff_of_false (nomatch ·) (nomatch ·.1)

end cases

end PlainSteps.CaseFile
