import PlainSteps.CaseFile

/-!
# When cases cannot be loaded

`CaseFile.load_error_iff`: loading fails exactly when a case file that was listed cannot be read or
holds no cases (`CaseFile.Found.Faulty`).

The names given to cases without one change from file to file, since they are numbered over all of
them. They play no part in whether a text holds cases (`CaseFile.isOk_readText`), so each file can be
judged by itself (`CaseFile.Unparsable`).

What is not listed is not missed: `CaseFile.load_closed` passes over the folders that cannot be listed,
and a path at which there is nothing has no cases.
-/

namespace PlainSteps

/-! ## Errors -/

section except

variable {ε ε' α β : Type}

@[simp] theorem mapError_error (f : ε → ε') (e : ε) :
    (.error e : Except ε α).mapError f = .error (f e) := rfl

@[simp] theorem mapError_ok (f : ε → ε') (a : α) :
    (.ok a : Except ε α).mapError f = .ok a := rfl

theorem map_error_iff {x : Except ε α} {f : α → β} :
    (∃ e, x.map f = .error e) ↔ ∃ e, x = .error e := by
  cases x <;> simp [Except.map]

theorem error_of_isOk {x : Except ε α} (h : x.isOk = false) : ∃ e, x = .error e := by
  cases x with
  | error e => exact ⟨e, rfl⟩
  | ok a => cases h

end except

namespace CaseFile

/-! ## Names for cases -/

section fresh

variable (name name' : String) (fresh fresh' : Nat → String)

theorem isSome_ofFields? (fields : List (Nat × Yaml)) :
    (ofFields? name fields).isSome = (ofFields? name' fields).isSome := by
  rcases hid : value? fields 0 with _ | v
  · have hname : ∀ n, fieldOr fields 0 n text? = some n := by simp [fieldOr, hid]
    simp [ofFields?, hname, Option.isSome_bind]
  · have hname : ∀ n, fieldOr fields 0 n text? = text? v := by simp [fieldOr, hid]
    simp only [ofFields?, hname]

theorem isSome_case? (v : Yaml) : (case? name v).isSome = (case? name' v).isSome := by
  cases v with
  | map fields =>
    simp only [case?]
    rcases slots? caseFields fields with _ | slots
    · rfl
    · exact isSome_ofFields? name name' slots
  | list items =>
    simp only [case?]
    split
    · rfl
    · exact isSome_ofFields? name name' _
  | _ => rfl

theorem isSome_caseList? (start : Nat) (vs : List Yaml) :
    (caseList? fresh start vs).isSome = vs.all fun v => (case? name v).isSome := by
  induction vs generalizing start with
  | nil => rfl
  | cons v vs ih =>
    have hfirst := isSome_case? (fresh start) name v
    have hrest := ih (start + 1)
    rw [List.all_cons, ← hfirst, ← hrest, caseList?]
    rcases case? (fresh start) v with _ | c
    · rfl
    · rcases caseList? fresh (start + 1) vs with _ | cs <;> rfl

theorem isSome_many? (v : Yaml) : (many? fresh v).isSome = (many? fresh' v).isSome := by
  cases v with
  | map fields =>
    simp only [many?]
    split
    · rw [isSome_caseList? "" fresh, isSome_caseList? "" fresh']
    · rfl
  | _ => rfl

theorem isSome_list? (v : Yaml) : (list? fresh v).isSome = (list? fresh' v).isSome := by
  cases v with
  | list items => simp only [list?, isSome_caseList? ""]
  | _ => rfl

theorem isSome_cases? (v : Yaml) : (cases? fresh v).isSome = (cases? fresh' v).isSome := by
  simp only [cases?, Option.isSome_or, Option.isSome_map, isSome_many? fresh fresh' v,
    isSome_list? fresh fresh' v, isSome_case? (fresh 0) (fresh' 0) v]

theorem isOk_readYaml (text : String) : (readYaml fresh text).isOk = (readYaml fresh' text).isOk := by
  unfold readYaml
  rcases Yaml.read? text with _ | v
  · rfl
  · have h := isSome_cases? fresh fresh' v
    simp only
    generalize cases? fresh v = cs at h
    generalize cases? fresh' v = cs' at h
    cases cs <;> cases cs' <;> first | rfl | cases h

theorem isOk_readJson (text : String) : (readJson fresh text).isOk = (readJson fresh' text).isOk := by
  unfold readJson
  rcases Json.readValue? text with _ | ⟨v, rest⟩
  · rfl
  · have h := isSome_cases? fresh fresh' (Yaml.ofJson v)
    simp only
    generalize cases? fresh (Yaml.ofJson v) = cs at h
    generalize cases? fresh' (Yaml.ofJson v) = cs' at h
    cases (Json.skipSpace rest).isEmpty <;> cases cs <;> cases cs' <;> first | rfl | cases h

theorem isOk_readText (path text : String) :
    (readText fresh path text).isOk = (readText fresh' path text).isOk := by
  unfold readText
  simp only
  split
  · exact isOk_readJson fresh fresh' text
  · exact isOk_readYaml fresh fresh' text

end fresh

/-! ## Faults -/

/-- Whatever the names for cases without one, the text of a file with a path holds no cases. -/
def Unparsable (path text : String) : Prop :=
  ∀ fresh, ∃ fault, readText fresh path text = .error fault

/-- A case file that was listed cannot be read, or holds no cases. A file that was named itself is a
case file whatever its name. -/
def Found.Faulty (path : String) : Found → Prop
  | .file text => Unparsable path text
  | .locked _ => True
  | .folder files obstacles =>
    (∃ components text, (components, text) ∈ files ∧ isCaseFile components = true ∧
      Unparsable (Path.below path components) text) ∨
    ∃ components reason, (components, .locked reason) ∈ obstacles ∧ isCaseFile components = true
  | .nothing => False

theorem unparsable_iff (fresh : Nat → String) {path text : String} :
    Unparsable path text ↔ ∃ fault, readText fresh path text = .error fault := by
  refine ⟨fun h => h fresh, ?_⟩
  rintro ⟨fault, h⟩ fresh'
  apply error_of_isOk
  rw [isOk_readText fresh' fresh, h]
  rfl

/-- A file cannot be read or holds no cases. -/
def BadFile (path : String) : Reading → Prop
  | .error _ => True
  | .ok text => Unparsable path text

theorem readFile_error_iff (fresh : Nat → String) (path : String) (reading : Reading) :
    (∃ e, readFile fresh path reading = .error e) ↔ BadFile path reading := by
  cases reading with
  | error reason => simp [readFile, BadFile]
  | ok text =>
    rw [BadFile, unparsable_iff fresh, readFile]
    rcases readText fresh path text with fault | cs <;> simp

theorem readFiles_error_iff (fresh : Nat → String) (base : String) (start : Nat)
    (files : List (List String × Reading)) :
    (∃ e, readFiles fresh base start files = .error e) ↔
      ∃ f ∈ files, BadFile (Path.below base f.1) f.2 := by
  -- The names for the cases of a file begin where those of the files before it end, so the induction
  -- is for every start.
  induction files generalizing start with
  | nil => simp [readFiles]
  | cons f files ih =>
    have hfirst := readFile_error_iff (fun n => fresh (start + n)) (Path.below base f.1) f.2
    simp only [List.mem_cons, exists_eq_or_imp]
    rw [← hfirst, readFiles]
    rcases readFile (fun n => fresh (start + n)) (Path.below base f.1) f.2 with e | cs
    · simp
    · simp only [map_error_iff, ih, reduceCtorEq, exists_false, false_or]

theorem mem_inOrder {files : List (List String × Reading)} {f : List String × Reading} :
    f ∈ inOrder files ↔ f ∈ files ∧ isCaseFile f.1 = true := by
  rw [inOrder, (List.mergeSort_perm _ _).mem_iff, List.mem_filter]

theorem mem_readings {files : List (List String × String)} {obstacles : List (List String × Obstacle)}
    {components : List String} {reading : Reading} :
    (components, reading) ∈ readings files obstacles ↔
      (∃ text, (components, text) ∈ files ∧ reading = .ok text) ∨
      ∃ reason, (components, .locked reason) ∈ obstacles ∧ reading = .error reason := by
  rw [readings, List.mem_append, List.mem_map, List.mem_filterMap]
  apply or_congr
  · constructor
    · rintro ⟨⟨components', text⟩, hmem, h⟩
      cases h
      exact ⟨text, hmem, rfl⟩
    · rintro ⟨text, hmem, rfl⟩
      exact ⟨(components, text), hmem, rfl⟩
  · constructor
    · rintro ⟨⟨components', reason | _⟩, hmem, h⟩
      · cases h
        exact ⟨reason, hmem, rfl⟩
      · cases h
    · rintro ⟨reason, hmem, rfl⟩
      exact ⟨(components, .locked reason), hmem, rfl⟩

/-- Loading fails exactly when a case file that was listed cannot be read or holds no cases. -/
theorem load_error_iff (fresh : Nat → String) (path : String) (found : Found) :
    (∃ e, load fresh path found = .error e) ↔ found.Faulty path := by
  cases found with
  | file text => exact readFile_error_iff fresh path (.ok text)
  | locked reason => exact readFile_error_iff fresh path (.error reason)
  | nothing => simp [load, Found.Faulty]
  | folder files obstacles =>
    rw [load, readFiles_error_iff, Found.Faulty]
    constructor
    · rintro ⟨⟨components, reading⟩, hmem, hbad⟩
      obtain ⟨hreading, hcase⟩ := mem_inOrder.mp hmem
      rcases mem_readings.mp hreading with ⟨text, htext, rfl⟩ | ⟨reason, hreason, rfl⟩
      · exact .inl ⟨components, text, htext, hcase, hbad⟩
      · exact .inr ⟨components, reason, hreason, hcase⟩
    · rintro (⟨components, text, htext, hcase, hbad⟩ | ⟨components, reason, hreason, hcase⟩)
      · have hreading : (components, .ok text) ∈ readings files obstacles :=
          mem_readings.mpr (.inl ⟨text, htext, rfl⟩)
        exact ⟨(components, .ok text), mem_inOrder.mpr ⟨hreading, hcase⟩, hbad⟩
      · have hreading : (components, .error reason) ∈ readings files obstacles :=
          mem_readings.mpr (.inr ⟨reason, hreason, rfl⟩)
        exact ⟨(components, .error reason), mem_inOrder.mpr ⟨hreading, hcase⟩, trivial⟩

/-! ## What is not listed -/

/-- There is nothing at a path, or a folder that cannot be listed. -/
def Found.Unlisted : Found → Prop
  | .nothing => True
  | .folder files obstacles => files = [] ∧ obstacles = [([], .closed)]
  | _ => False

theorem readings_closed (files : List (List String × String))
    (obstacles : List (List String × Obstacle)) :
    readings files (obstacles.filter (·.2 != .closed)) = readings files obstacles := by
  rw [readings, readings, List.filterMap_filter]
  congr 2
  funext ⟨components, o⟩
  cases o <;> rfl

theorem load_closed (fresh : Nat → String) (path : String) (files : List (List String × String))
    (obstacles : List (List String × Obstacle)) :
    load fresh path (.folder files obstacles) =
      load fresh path (.folder files (obstacles.filter (·.2 != .closed))) := by
  rw [load, load, readings_closed]

theorem load_unlisted (fresh : Nat → String) (path : String) {found : Found} (h : found.Unlisted) :
    load fresh path found = .ok [] := by
  cases found with
  | file text => cases h
  | locked reason => cases h
  | nothing => rfl
  | folder files obstacles =>
    obtain ⟨rfl, rfl⟩ := h
    rw [load_closed]
    simp [load, readings, inOrder, readFiles]

end CaseFile

end PlainSteps
