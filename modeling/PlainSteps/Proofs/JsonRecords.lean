import Mathlib.Data.List.Forall2
import PlainSteps.Json.Record
import PlainSteps.Proofs.JsonText

/-!
# Records in JSON text

* `Json.fields?_record` : in a record whose names are all different each field is found by its name, and one
  that is not there is found missing.
* `Json.fields?_object_eq_some_iff` : which values are found in an object: those of the fields that are given
  once (`Json.GivenOnce`).
* `Json.Fits` : a value that is read back from its text (`read?_of_fits`). Strings and counts of 64 bits fit,
  and so do the lists and records of values that fit, one level deeper.
* `Json.occurring` : which of several names occur in a value as names of fields, in the order of the text.
  For a list and for a record this is put together from their values.
-/

namespace PlainSteps.Json

/-! ## Fields -/

theorem mapM_written {α β γ : Type} {read : β → Option γ} {write : α → β} {value : α → γ} {xs : List α}
    (h : ∀ x ∈ xs, read (write x) = some (value x)) :
    (xs.map write).mapM read = some (xs.map value) := by
  induction xs with
  | nil => rfl
  | cons x xs ih =>
    obtain ⟨hx, hxs⟩ := List.forall_mem_cons.mp h
    rw [List.map_cons, List.mapM_cons, hx, ih hxs]
    rfl

/-- The fields of a record that are there. -/
def present (fs : List (String × Option Json)) : List (String × Json) :=
  fs.filterMap fun f => f.2.map (f.1, ·)

theorem present_cons (name : String) (v : Option Json) (fs : List (String × Option Json)) :
    present ((name, v) :: fs) = (v.map (name, ·)).toList ++ present fs := by
  cases v <;> rfl

theorem filter_present_of_notMem {fs : List (String × Option Json)} {name : String}
    (h : name ∉ fs.map (·.1)) : (present fs).filter (·.1 == name) = [] := by
  rw [List.filter_eq_nil_iff]
  intro g hg hname
  obtain ⟨f, hf, hfg⟩ := List.mem_filterMap.mp hg
  obtain ⟨v, -, rfl⟩ := Option.map_eq_some_iff.mp hfg
  have hmem : f.1 ∈ fs.map (·.1) := List.mem_map_of_mem hf
  exact h (eq_of_beq hname ▸ hmem)

theorem filter_present {fs : List (String × Option Json)} (hnodup : (fs.map (·.1)).Nodup)
    {f : String × Option Json} (hf : f ∈ fs) :
    (present fs).filter (·.1 == f.1) = (f.2.map (f.1, ·)).toList := by
  induction fs with
  | nil => cases hf
  | cons g fs ih =>
    obtain ⟨hnew, hnodup⟩ := List.nodup_cons.mp hnodup
    rw [present_cons, List.filter_append]
    rcases List.mem_cons.mp hf with rfl | hf
    · rw [filter_present_of_notMem hnew, List.append_nil]
      cases f.2 <;> simp
    · have hne : g.1 ≠ f.1 := fun h => hnew (List.mem_map.mpr ⟨f, hf, h.symm⟩)
      rw [ih hnodup hf]
      cases g.2 <;> simp [hne]

theorem single?_present {fs : List (String × Option Json)} (hnodup : (fs.map (·.1)).Nodup)
    {f : String × Option Json} (hf : f ∈ fs) : single? (present fs) f.1 = some f.2 := by
  rw [single?, filter_present hnodup hf]
  cases f.2 <;> rfl

theorem fields?_record {names : List String} (hnodup : names.Nodup) {fs : List (String × Option Json)}
    (hnames : fs.map (·.1) = names) : (record fs).fields? names = some (fs.map (·.2)) := by
  subst hnames
  have hfound : ∀ f ∈ fs, single? (present fs) f.1 = some f.2 := fun f hf => single?_present hnodup hf
  exact mapM_written hfound

theorem record_some (fs : List (String × Json)) :
    record (fs.map fun f => (f.1, some f.2)) = object fs := by
  have hpresent : present (fs.map fun f => (f.1, some f.2)) = fs := by
    induction fs with
    | nil => rfl
    | cons f fs ih => rw [List.map_cons, present_cons, ih]; rfl
  exact congrArg object hpresent

theorem fields?_object {names : List String} (hnodup : names.Nodup) {fs : List (String × Json)}
    (hnames : fs.map (·.1) = names) : (object fs).fields? names = some (fs.map fun f => some f.2) := by
  have hsome : (fs.map fun f => (f.1, some f.2)).map (·.1) = names := by
    rw [List.map_map]
    exact hnames
  have hfields := fields?_record hnodup hsome
  rwa [record_some, List.map_map] at hfields

/-- A field of an object is given, and given once. -/
def GivenOnce (fs : List (String × Json)) (name : String) (v : Json) : Prop :=
  fs.filter (·.1 == name) = [(name, v)]

theorem single?_eq_some_some_iff {fs : List (String × Json)} {name : String} {v : Json} :
    single? fs name = some (some v) ↔ GivenOnce fs name v := by
  rw [single?, GivenOnce]
  split
  case h_1 hnone => simp [hnone]
  case h_2 f hone =>
    have hname : f.1 = name := by
      have hf : f ∈ fs.filter (·.1 == name) := by rw [hone]; exact List.mem_singleton_self f
      exact eq_of_beq (List.mem_filter.mp hf).2
    subst hname
    simp [hone, Prod.ext_iff]
  case h_3 hnone hone =>
    exact ⟨(nomatch ·), fun h => absurd h (hone _)⟩

theorem single?_eq_some_none_iff {fs : List (String × Json)} {name : String} :
    single? fs name = some none ↔ ∀ v, (name, v) ∉ fs := by
  have hgiven : fs.filter (·.1 == name) = [] ↔ ∀ v, (name, v) ∉ fs := by
    rw [List.filter_eq_nil_iff]
    refine ⟨fun h v hv => h _ hv (beq_self_eq_true name), ?_⟩
    rintro h ⟨n, v⟩ hf hname
    obtain rfl : n = name := eq_of_beq hname
    exact h v hf
  rw [← hgiven, single?]
  split
  case h_1 hnone => simp [hnone]
  case h_2 f hone => simp [hone]
  case h_3 hnone hone => exact ⟨(nomatch ·), fun h => absurd h hnone⟩

theorem fields?_object_eq_some_iff {names : List String} {fs : List (String × Json)} {vs : List (Option Json)} :
    (object fs).fields? names = some vs ↔ List.Forall₂ (fun name v => single? fs name = some v) names vs := by
  rw [fields?]
  induction names generalizing vs with
  | nil =>
    simp only [List.mapM_nil, List.forall₂_nil_left_iff]
    exact ⟨fun h => (Option.some.inj h).symm, fun h => congrArg some h.symm⟩
  | cons name names ih =>
    rw [List.mapM_cons, List.forall₂_cons_left_iff]
    constructor
    · intro h
      obtain ⟨v, hv, h⟩ := Option.bind_eq_some_iff.mp h
      obtain ⟨ws, hws, h⟩ := Option.bind_eq_some_iff.mp h
      exact ⟨v, ws, hv, ih.mp hws, (Option.some.inj h).symm⟩
    · rintro ⟨v, ws, hv, hws, rfl⟩
      rw [hv, ih.mpr hws]
      rfl

/-! ## Values of fields -/

-- `simp` with `Option.bind_some` takes this step by definition, and its check then counts up to the bound of a
-- field; a lemma that is rewritten with does not.
theorem bind_of_read {α : Type} {read : Json → Option α} {v : Json} {a : α} (h : read v = some a) :
    (some v).bind read = some a := by
  rw [Option.bind_some, h]

theorem natural?_nat {n bound : Nat} (h : n < bound) : natural? bound (nat n) = some n := by
  have hin : 0 ≤ (n : Int) ∧ (n : Int) < bound := ⟨Int.natCast_nonneg n, by exact_mod_cast h⟩
  rw [nat, natural?, if_pos hin, Int.toNat_natCast]

theorem count?_nat {n : Nat} (h : n < Nat.pow 2 64) : count? (nat n) = some n :=
  natural?_nat h

theorem list?_array {α : Type} {read : Json → Option α} {write : α → Json} {xs : List α}
    (h : ∀ x ∈ xs, read (write x) = some x) : list? read (array (xs.map write)) = some xs := by
  have hall := mapM_written h
  rwa [List.map_id'] at hall

theorem list?_strings (ss : List String) : list? text? (strings ss) = some ss :=
  list?_array fun _ _ => rfl

theorem optional?_map {α : Type} {read : Json → Option α} {write : α → Json} {x : Option α}
    (hnull : ∀ a ∈ x, write a ≠ null) (h : ∀ a ∈ x, read (write a) = some a) :
    optional? read (x.map write) = some x := by
  cases x with
  | none => rfl
  | some a =>
    rw [Option.map_some, optional?]
    · rw [h a rfl]
      rfl
    · exact hnull a rfl

theorem optional?_elim {α : Type} {read : Json → Option α} {write : α → Json} {x : Option α}
    (hnull : ∀ a ∈ x, write a ≠ null) (h : ∀ a ∈ x, read (write a) = some a) :
    optional? read (some (x.elim null write)) = some x := by
  cases x with
  | none => rfl
  | some a => exact optional?_map hnull h

theorem text?_eq_some_iff {v : Json} {s : String} : text? v = some s ↔ v = string s := by
  cases v <;> simp [text?]

theorem natural?_eq_some_iff {bound n : Nat} {v : Json} :
    natural? bound v = some n ↔ v = nat n ∧ n < bound := by
  constructor
  · intro h
    cases v with
    | number x =>
      cases x with
      | whole m =>
        rw [natural?, Option.ite_none_right_eq_some, Option.some.injEq] at h
        obtain ⟨⟨hnonneg, hbound⟩, rfl⟩ := h
        refine ⟨?_, by omega⟩
        rw [nat, Int.toNat_of_nonneg hnonneg]
      | double x => cases h
    | _ => cases h
  · rintro ⟨rfl, hn⟩
    exact natural?_nat hn

theorem bind_text?_eq_some_iff {v : Option Json} {s : String} :
    v.bind text? = some s ↔ v = some (string s) := by
  simp [Option.bind_eq_some_iff, text?_eq_some_iff]

theorem bind_natural?_eq_some_iff {bound n : Nat} {v : Option Json} :
    v.bind (natural? bound) = some n ↔ v = some (nat n) ∧ n < bound := by
  simp [Option.bind_eq_some_iff, natural?_eq_some_iff]

theorem orElse?_count?_eq_some_iff {n usual : Nat} {v : Option Json} : orElse? usual count? v = some n ↔
    (v = none ∧ n = usual) ∨ (v = some (nat n) ∧ n < Nat.pow 2 64) := by
  cases v with
  | none => simp [orElse?, eq_comm]
  | some v => simp [orElse?, count?, natural?_eq_some_iff]

/-! ## Texts -/

/-- A value that is read back from its text when it is no more than so many levels deep. -/
structure Fits (d : Nat) (v : Json) : Prop where
  exact : v.Exact
  depth_le : v.depth ≤ d

theorem read?_of_fits {d : Nat} {v : Json} (h : v.Fits d) (hd : d ≤ maxNesting) {s : String}
    (hs : ∀ c ∈ s.toList, c = '\n') : read? (v.pretty ++ s) = some v :=
  read?_pretty h.exact (Nat.le_trans h.depth_le hd) hs

theorem fits_null (d : Nat) : null.Fits (d + 1) :=
  ⟨trivial, Nat.le_add_left 1 d⟩

theorem fits_string (d : Nat) (s : String) : (string s).Fits (d + 1) :=
  ⟨trivial, Nat.le_add_left 1 d⟩

theorem fits_nat (d : Nat) {n : Nat} (h : n < Nat.pow 2 64) : (nat n).Fits (d + 1) :=
  ⟨⟨Int.natCast_nonneg n, Nat.le_pred_of_lt h⟩, Nat.le_add_left 1 d⟩

theorem fits_array {d : Nat} {vs : List Json} (h : ∀ v ∈ vs, v.Fits d) : (array vs).Fits (d + 1) := by
  have hitems : ItemsExact vs ∧ itemsDepth vs ≤ d := by
    induction vs with
    | nil => exact ⟨trivial, Nat.zero_le d⟩
    | cons v vs ih =>
      obtain ⟨hv, hvs⟩ := List.forall_mem_cons.mp h
      obtain ⟨hexact, hdepth⟩ := ih hvs
      exact ⟨⟨hv.exact, hexact⟩, Nat.max_le.mpr ⟨hv.depth_le, hdepth⟩⟩
  exact ⟨hitems.1, Nat.succ_le_succ hitems.2⟩

theorem fits_list {α : Type} {d : Nat} {write : α → Json} {xs : List α} (h : ∀ x ∈ xs, (write x).Fits d) :
    (array (xs.map write)).Fits (d + 1) := by
  refine fits_array fun v hv => ?_
  obtain ⟨x, hx, rfl⟩ := List.mem_map.mp hv
  exact h x hx

theorem fits_optional {α : Type} {d : Nat} {write : α → Json} {x : Option α} (h : ∀ a ∈ x, (write a).Fits d) :
    ∀ v ∈ x.map write, v.Fits d := by
  intro v hv
  obtain ⟨a, ha, rfl⟩ := Option.map_eq_some_iff.mp hv
  exact h a ha

theorem fits_strings (d : Nat) (ss : List String) : (strings ss).Fits (d + 2) :=
  fits_list fun s _ => fits_string d s

theorem fits_object {d : Nat} {fs : List (String × Json)} (h : ∀ f ∈ fs, f.2.Fits d) :
    (object fs).Fits (d + 1) := by
  have hfields : FieldsExact fs ∧ fieldsDepth fs ≤ d := by
    induction fs with
    | nil => exact ⟨trivial, Nat.zero_le d⟩
    | cons f fs ih =>
      obtain ⟨hf, hfs⟩ := List.forall_mem_cons.mp h
      obtain ⟨hexact, hdepth⟩ := ih hfs
      exact ⟨⟨hf.exact, hexact⟩, Nat.max_le.mpr ⟨hf.depth_le, hdepth⟩⟩
  exact ⟨hfields.1, Nat.succ_le_succ hfields.2⟩

theorem fits_record {d : Nat} {fs : List (String × Option Json)} (h : ∀ f ∈ fs, ∀ v ∈ f.2, v.Fits d) :
    (record fs).Fits (d + 1) := by
  refine fits_object fun g hg => ?_
  obtain ⟨f, hf, hfg⟩ := List.mem_filterMap.mp hg
  obtain ⟨v, hv, rfl⟩ := Option.map_eq_some_iff.mp hfg
  exact h f hf v hv

/-! ## Names that occur -/

mutual

/-- The names of the fields in a value at all levels, in order. -/
def names : Json → List String
  | array items => itemsNames items
  | object fields => fieldsNames fields
  | _ => []

def itemsNames : List Json → List String
  | [] => []
  | v :: vs => names v ++ itemsNames vs

def fieldsNames : List (String × Json) → List String
  | [] => []
  | (name, v) :: fs => name :: (names v ++ fieldsNames fs)

end

/-- Those of several names that occur in a value, each as often as it does, in order. -/
def occurring (wanted : List String) (v : Json) : List String :=
  v.names.filter wanted.contains

/-- Those of several names that occur in a field, if it is there. -/
def occurringIn (wanted : List String) (name : String) (v : Option Json) : List String :=
  v.elim [] fun v => [name].filter wanted.contains ++ v.occurring wanted

theorem occurring_string (wanted : List String) (s : String) : (string s).occurring wanted = [] := by
  rfl

theorem occurring_nat (wanted : List String) (n : Nat) : (nat n).occurring wanted = [] := by
  rfl

theorem occurring_array (wanted : List String) (vs : List Json) :
    (array vs).occurring wanted = vs.flatMap (occurring wanted) := by
  have hnames : (array vs).names = vs.flatMap names := by
    rw [names]
    induction vs with
    | nil => rfl
    | cons v vs ih => rw [itemsNames, ih, List.flatMap_cons]
  rw [occurring, hnames, List.filter_flatMap]
  rfl

theorem occurring_list {α : Type} (wanted : List String) (write : α → Json) (xs : List α) :
    (array (xs.map write)).occurring wanted = xs.flatMap fun x => (write x).occurring wanted := by
  rw [occurring_array, List.flatMap_map]

theorem occurring_strings (wanted : List String) (ss : List String) :
    (strings ss).occurring wanted = [] := by
  rw [strings, occurring_list, List.flatMap_eq_nil_iff]
  exact fun s _ => occurring_string wanted s

theorem occurring_object (wanted : List String) (fs : List (String × Json)) :
    (object fs).occurring wanted = fs.flatMap fun f => occurringIn wanted f.1 (some f.2) := by
  induction fs with
  | nil => rfl
  | cons f fs ih =>
    have hnames : (object (f :: fs)).names = [f.1] ++ f.2.names ++ (object fs).names := rfl
    rw [List.flatMap_cons, ← ih, occurring, hnames, List.filter_append, List.filter_append]
    rfl

theorem occurring_record (wanted : List String) (fs : List (String × Option Json)) :
    (record fs).occurring wanted = fs.flatMap fun f => occurringIn wanted f.1 f.2 := by
  have hpresent : (object (present fs)).occurring wanted =
      fs.flatMap fun f => occurringIn wanted f.1 f.2 := by
    rw [occurring_object]
    induction fs with
    | nil => rfl
    | cons f fs ih =>
      rw [present_cons, List.flatMap_append, ih, List.flatMap_cons]
      cases f.2 <;> simp [occurringIn]
  exact hpresent

end PlainSteps.Json
