import Mathlib.Data.List.Forall2
import PlainSteps.Proofs.CaseLoading
import PlainSteps.Proofs.CaseRecords
import PlainSteps.Proofs.PathNames

/-!
# The cases of a folder

`CaseFile.load_folder`: the cases of a folder are those of its case files in the order of their paths, one
file after the other, in whatever order the files are listed; or there is the error of the first file that
holds no cases, and no case.

* `CaseFile.Holds` : the cases that a value holds, in the three shapes of a case file. What its items are read as
  is told by `CaseFile.case?_eq_some_iff`, and which list an object has by `CaseFile.listed?_eq_some_iff`.
* `CaseFile.HoldsCases` : the cases that the text of a file holds, in the format that its name tells.
* `CaseFile.Gathered` : what the files hold one by one, the cases being numbered over all of them.

The order of paths is a strict order of the lists of their names (`Path.before_iff`), so of the files of a
tree (`CaseFile.IsTree`), whose paths are different, there is only one list in order (`inOrder_perm`). The
path of a file tells its extension, since it ends in the file's name (`Path.components_below`).
-/

namespace PlainSteps

/-! ## The order of paths -/

namespace Path

theorem before_iff {a b : List String} : before a b = true ↔ a < b ∨ a = b := by
  rw [before, Bool.not_eq_true', decide_eq_false_iff_not]
  constructor
  · intro h
    by_cases hlt : a < b
    · exact .inl hlt
    · exact .inr (List.le_antisymm (List.not_lt.mp h) (List.not_lt.mp hlt))
  · rintro (h | rfl)
    · exact List.lt_asymm h
    · exact List.lt_irrefl a

/-- A folder comes before one whose name goes on, although the paths as texts are the other way round. -/
example : before ["a", "z.yaml"] ["a-b", "c.json"] = true ∧ "a-b/c.json" < "a/z.yaml" := by decide

theorem before_trans {a b c : List String} (hab : before a b = true) (hbc : before b c = true) :
    before a c = true := by
  rw [before_iff] at *
  rcases hab with hab | rfl
  · rcases hbc with hbc | rfl
    · exact .inl (List.lt_trans hab hbc)
    · exact .inl hab
  · exact hbc

theorem before_total (a b : List String) : (before a b || before b a) = true := by
  rw [Bool.or_eq_true, before, before]
  simp only [Bool.not_eq_true', decide_eq_false_iff_not]
  by_cases h : b < a
  · exact .inr (List.lt_asymm h)
  · exact .inl h

theorem extension?_eq_some_iff {name extension : String} (hpoint : '.' ∉ extension.toList)
    (hempty : extension ≠ "") :
    extension? name = some extension ↔ ∃ stem, stem ≠ "" ∧ name = stem ++ "." ++ extension := by
  constructor
  · intro h
    simp only [extension?, Option.ite_none_left_eq_some, Bool.or_eq_true, beq_iff_eq, List.isEmpty_iff,
      not_or, Option.some.injEq] at h
    obtain ⟨⟨-, hstem⟩, rfl⟩ := h
    obtain ⟨c, stem, hdrop⟩ := List.exists_cons_of_ne_nil
      (fun hnil => hstem (by rw [hnil, List.drop_nil]) : name.toList.reverse.dropWhile (· != '.') ≠ [])
    have hc : c = '.' := by
      have hhead := List.head_dropWhile_not (· != '.') (l := name.toList.reverse) (by simp [hdrop])
      simpa [hdrop] using hhead
    rw [hdrop, List.drop_succ_cons, List.drop_zero] at hstem
    refine ⟨String.ofList stem.reverse, by simpa using hstem, ?_⟩
    have hname : name.toList.reverse =
        name.toList.reverse.takeWhile (· != '.') ++ '.' :: stem := by
      conv_lhs => rw [← List.takeWhile_append_dropWhile (p := (· != '.')) (l := name.toList.reverse)]
      rw [hdrop, hc]
    rw [← String.toList_inj]
    simpa using congrArg List.reverse hname
  · rintro ⟨stem, hstem, rfl⟩
    have htail : (stem ++ "." ++ extension).toList.reverse =
        extension.toList.reverse ++ '.' :: stem.toList.reverse := by simp
    have hother : ∀ c ∈ extension.toList.reverse, (c != '.') = true := by
      intro c hc
      exact bne_iff_ne.mpr fun heq => hpoint (heq ▸ List.mem_reverse.mp hc)
    have hdots : stem ++ "." ++ extension ≠ ".." := by
      intro h
      have hlist := congrArg (fun s => s.toList.reverse) h
      simp only [htail] at hlist
      have hnil : extension.toList.reverse ≠ [] := by simpa using hempty
      obtain ⟨c, rest, hcons⟩ := List.exists_cons_of_ne_nil hnil
      rw [hcons] at hlist hother
      have hc : c = '.' := (List.cons.inj hlist).1
      exact absurd (hother c List.mem_cons_self) (by simp [hc])
    rw [extension?, htail, List.takeWhile_append_of_pos hother, List.dropWhile_append_of_pos hother]
    simp [hdots, hstem]

end Path

namespace CaseFile

/-! ## The cases in a value -/

/-- Cases that items are, one for each; the names for those without one are numbered from `start` on. -/
def EachCase (fresh : Nat → String) (start : Nat) (items : List Yaml) (cases : List TestCase) : Prop :=
  List.Forall₂ (fun item c => case? (fresh item.2) item.1 = some c) (items.zipIdx start) cases

/-- The list under the field `cases` of an object. -/
def listed? : Yaml → Option (List Yaml)
  | .map fields =>
    match (slots? ["cases"] fields).bind (value? · 0) with
    | some (.list items) => some items
    | _ => none
  | _ => none

theorem listed?_eq_some_iff {v : Yaml} {items : List Yaml} : listed? v = some items ↔
    ∃ fields, v = .map fields ∧ IsRecord ["cases"] v ∧ Gives ["cases"] "cases" (.list items) v := by
  have hnames : ["cases"].Nodup := List.nodup_singleton _
  cases v with
  | map fields =>
    have hlist : listed? (.map fields) = some items ↔
        ∃ slots, slots? ["cases"] fields = some slots ∧ value? slots 0 = some (.list items) := by
      rw [← Option.bind_eq_some_iff, listed?]
      split
      case h_1 found hfound => simp [hfound]
      case h_2 hother => exact iff_of_false (nomatch ·) (hother items)
    rw [hlist]
    constructor
    · rintro ⟨slots, hslots, hvalue⟩
      obtain ⟨hrecord, hgives⟩ := slots_of_slots? hnames hslots
      exact ⟨fields, rfl, hrecord, (hgives rfl).mp hvalue⟩
    · rintro ⟨_, -, hrecord, hgiven⟩
      obtain ⟨slots, hslots⟩ := exists_slots? hnames hrecord
      exact ⟨slots, hslots, ((slots_of_slots? hnames hslots).2 rfl).mpr hgiven⟩
  | _ => exact iff_of_false (nomatch ·) (fun ⟨_, heq, _⟩ => nomatch heq)

/-- The cases that a value holds: those of the list in an object, or those of a list, if all items are
cases, and else the one case that the value is. -/
inductive Holds (fresh : Nat → String) (v : Yaml) : List TestCase → Prop
  | many {items : List Yaml} {cases : List TestCase} (hlist : listed? v = some items)
      (hcases : EachCase fresh 0 items cases) : Holds fresh v cases
  | list {items : List Yaml} {cases : List TestCase} (hlist : v = .list items)
      (hcases : EachCase fresh 0 items cases) : Holds fresh v cases
  | one {c : TestCase}
      (hnone : ∀ items, listed? v = some items ∨ v = .list items → ¬∃ cases, EachCase fresh 0 items cases)
      (hcase : case? (fresh 0) v = some c) : Holds fresh v [c]

theorem caseList?_eq_some_iff {fresh : Nat → String} {start : Nat} {items : List Yaml}
    {cases : List TestCase} :
    caseList? fresh start items = some cases ↔ EachCase fresh start items cases := by
  induction items generalizing start cases with
  | nil => cases cases <;> simp [caseList?, EachCase]
  | cons v items ih =>
    rw [EachCase, List.zipIdx_cons, caseList?]
    constructor
    · intro h
      split at h
      next c cs hc hcs =>
        obtain rfl := Option.some.inj h
        exact .cons hc (ih.mp hcs)
      next => cases h
    · rintro (_ | ⟨hc, hcs⟩)
      rw [hc, ih.mpr hcs]

theorem many?_eq (fresh : Nat → String) (v : Yaml) :
    many? fresh v = (listed? v).bind (caseList? fresh 0) := by
  cases v with
  | map fields =>
    rw [many?, listed?]
    rcases (slots? ["cases"] fields).bind (value? · 0) with _ | w
    · rfl
    · cases w <;> rfl
  | _ => rfl

theorem caseList?_eq_none_iff {fresh : Nat → String} {start : Nat} {items : List Yaml} :
    caseList? fresh start items = none ↔ ¬∃ cases, EachCase fresh start items cases := by
  simp only [Option.eq_none_iff_forall_ne_some, ne_eq, caseList?_eq_some_iff, not_exists]

theorem cases?_eq_some_iff {fresh : Nat → String} {v : Yaml} {cases : List TestCase} :
    cases? fresh v = some cases ↔ Holds fresh v cases := by
  rw [cases?, Option.or_eq_some_iff, Option.or_eq_some_iff, many?_eq, Option.bind_eq_some_iff]
  constructor
  · rintro (⟨items, hlist, hcases⟩ | ⟨hmany, hcases | ⟨hlist, hcase⟩⟩)
    · exact .many hlist (caseList?_eq_some_iff.mp hcases)
    · cases v with
      | list items => exact .list rfl (caseList?_eq_some_iff.mp hcases)
      | _ => cases hcases
    · obtain ⟨c, hc, rfl⟩ := Option.map_eq_some_iff.mp hcase
      refine .one ?_ hc
      rintro items (h | rfl)
      · rw [h, Option.bind_some] at hmany
        exact caseList?_eq_none_iff.mp hmany
      · exact caseList?_eq_none_iff.mp hlist
  · rintro (⟨hlist, hcases⟩ | ⟨rfl, hcases⟩ | ⟨hnone, hcase⟩)
    · exact .inl ⟨_, hlist, caseList?_eq_some_iff.mpr hcases⟩
    · exact .inr ⟨rfl, .inl (caseList?_eq_some_iff.mpr hcases)⟩
    · refine .inr ⟨?_, .inr ⟨?_, by rw [hcase, Option.map_some]⟩⟩
      · rw [Option.bind_eq_none_iff]
        exact fun items h => caseList?_eq_none_iff.mpr (hnone items (.inl h))
      · cases v with
        | list items => exact caseList?_eq_none_iff.mpr (hnone items (.inr rfl))
        | _ => rfl

/-! ## The cases in a file -/

/-- The extensions of case files. -/
def extensions : List String := ["yaml", "yml", "json"]

/-- A path whose last name is something, a point and an extension. -/
def HasExtension (extension : String) (components : List String) : Prop :=
  ∃ folders stem, stem ≠ "" ∧ components = folders ++ [stem ++ "." ++ extension]

/-- The cases that a text holds in the format of an extension. -/
inductive HoldsCases (fresh : Nat → String) (text : String) : String → List TestCase → Prop
  | json {v : Json} {cases : List TestCase} (hread : Json.read? text = some v)
      (hcases : Holds fresh (.ofJson v) cases) : HoldsCases fresh text "json" cases
  | yaml {extension : String} {v : Yaml} {cases : List TestCase}
      (hextension : extension = "yaml" ∨ extension = "yml") (hread : Yaml.read? text = some v)
      (hcases : Holds fresh v cases) : HoldsCases fresh text extension cases

/-- The cases that a file of a folder holds: those of its text, in the format of its extension. -/
def FileHolds (fresh : Nat → String) (f : List String × String) (cases : List TestCase) : Prop :=
  ∃ extension, HasExtension extension f.1 ∧ HoldsCases fresh f.2 extension cases

theorem readYaml_eq_ok_iff {fresh : Nat → String} {text : String} {cases : List TestCase} :
    readYaml fresh text = .ok cases ↔ ∃ v, Yaml.read? text = some v ∧ Holds fresh v cases := by
  unfold readYaml
  rcases Yaml.read? text with _ | v
  · simp
  · simp only [Option.some.injEq, exists_eq_left', ← cases?_eq_some_iff]
    rcases cases? fresh v with _ | cs <;> simp

theorem readJson_eq_ok_iff {fresh : Nat → String} {text : String} {cases : List TestCase} :
    readJson fresh text = .ok cases ↔ ∃ v, Json.read? text = some v ∧ Holds fresh (.ofJson v) cases := by
  unfold readJson Json.read?
  rcases Json.readValue? text with _ | ⟨v, rest⟩
  · simp
  · simp only [← cases?_eq_some_iff]
    rcases hrest : (Json.skipSpace rest).isEmpty <;> rcases hcases : cases? fresh (.ofJson v) with _ | cs
    all_goals simp [hcases]

theorem hasExtension_iff {extension : String} (h : extension ∈ extensions) {components : List String} :
    HasExtension extension components ↔ components.getLast?.bind Path.extension? = some extension := by
  have hplain : ∀ e ∈ extensions, '.' ∉ e.toList ∧ e ≠ "" := by decide
  obtain ⟨hpoint, hempty⟩ := hplain extension h
  simp only [Option.bind_eq_some_iff, Path.extension?_eq_some_iff hpoint hempty]
  constructor
  · rintro ⟨folders, stem, hstem, rfl⟩
    exact ⟨_, List.getLast?_concat, stem, hstem, rfl⟩
  · rintro ⟨name, hname, stem, hstem, rfl⟩
    obtain ⟨folders, rfl⟩ := List.getLast?_eq_some_iff.mp hname
    exact ⟨folders, stem, hstem, rfl⟩

theorem isCaseFile_iff {components : List String} :
    isCaseFile components = true ↔ ∃ extension ∈ extensions, HasExtension extension components := by
  have hiff : isCaseFile components = true ↔
      ∃ extension ∈ extensions, components.getLast?.bind Path.extension? = some extension := by
    rw [isCaseFile]
    rcases components.getLast?.bind Path.extension? with _ | e <;> simp [extensions]
  rw [hiff]
  exact exists_congr fun e => and_congr_right fun h => (hasExtension_iff h).symm

theorem extension_of_holdsCases {fresh : Nat → String} {text extension : String} {cases : List TestCase}
    (h : HoldsCases fresh text extension cases) : extension ∈ extensions := by
  cases h with
  | json => decide
  | yaml hextension =>
    rcases hextension with rfl | rfl
    · decide
    · decide

theorem readText_below (fresh : Nat → String) (base : String) {components : List String}
    (hnames : ∀ name ∈ components, Path.IsName name) {extension : String} (h : extension ∈ extensions)
    (hextension : HasExtension extension components) (text : String) :
    readText fresh (Path.below base components) text =
      if extension = "json" then readJson fresh text else readYaml fresh text := by
  obtain ⟨name, hlast, hname⟩ := Option.bind_eq_some_iff.mp ((hasExtension_iff h).mp hextension)
  have hpath : (Path.components (Path.below base components)).getLast? = some name := by
    rw [Path.components_below base hnames, List.getLast?_append, hlast, Option.some_or]
  simp only [readText, hpath, Option.getD_some, hname, beq_iff_eq, Option.some.injEq]

theorem readText_eq_ok_iff (fresh : Nat → String) (base : String) {f : List String × String}
    (hnames : ∀ name ∈ f.1, Path.IsName name) (hcase : isCaseFile f.1 = true) {cases : List TestCase} :
    readText fresh (Path.below base f.1) f.2 = .ok cases ↔ FileHolds fresh f cases := by
  obtain ⟨extension, hmem, hextension⟩ := isCaseFile_iff.mp hcase
  have hread := readText_below fresh base hnames hmem hextension f.2
  constructor
  · intro h
    rw [hread] at h
    refine ⟨extension, hextension, ?_⟩
    split at h
    next hjson =>
      obtain ⟨v, hv, hholds⟩ := readJson_eq_ok_iff.mp h
      exact hjson ▸ .json hv hholds
    next hjson =>
      obtain ⟨v, hv, hholds⟩ := readYaml_eq_ok_iff.mp h
      have hyaml : extension = "yaml" ∨ extension = "yml" := by
        simpa [extensions, hjson] using hmem
      exact .yaml hyaml hv hholds
  · rintro ⟨extension', hextension', hholds⟩
    -- a name has one extension only
    obtain rfl : extension' = extension := by
      have h := (hasExtension_iff (extension_of_holdsCases hholds)).mp hextension'
      rw [(hasExtension_iff hmem).mp hextension] at h
      exact (Option.some.inj h).symm
    rw [hread]
    cases hholds with
    | json hv hcases => exact readJson_eq_ok_iff.mpr ⟨_, hv, hcases⟩
    | yaml hyaml hv hcases =>
      have hjson : extension' ≠ "json" := by
        rcases hyaml with rfl | rfl
        · decide
        · decide
      rw [if_neg hjson]
      exact readYaml_eq_ok_iff.mpr ⟨_, hv, hcases⟩

section fresh

variable {fresh : Nat → String} (fresh' : Nat → String)

theorem cases?_eq_none {v : Yaml} (h : cases? fresh v = none) : cases? fresh' v = none := by
  have hsome := isSome_cases? fresh fresh' v
  rw [h, Option.isSome_none] at hsome
  exact Option.not_isSome_iff_eq_none.mp (by rw [← hsome]; decide)

theorem readYaml_error {text : String} {fault : CaseFault} :
    readYaml fresh text = .error fault → readYaml fresh' text = .error fault := by
  unfold readYaml
  rcases Yaml.read? text with _ | v
  · exact id
  · simp only
    cases hcases : cases? fresh v with
    | none =>
      rw [cases?_eq_none fresh' hcases]
      exact id
    | some cs => exact nofun

theorem readJson_error {text : String} {fault : CaseFault} :
    readJson fresh text = .error fault → readJson fresh' text = .error fault := by
  unfold readJson
  rcases Json.readValue? text with _ | ⟨v, rest⟩
  · exact id
  · simp only
    cases hcases : cases? fresh (.ofJson v) with
    | none =>
      rw [cases?_eq_none fresh' hcases]
      exact id
    | some cs =>
      cases hcases' : cases? fresh' (.ofJson v) with
      | none =>
        rw [cases?_eq_none fresh hcases'] at hcases
        cases hcases
      | some cs' =>
        simp only
        split
        · exact nofun
        · exact id

theorem readText_error {path text : String} {fault : CaseFault} :
    readText fresh path text = .error fault → readText fresh' path text = .error fault := by
  unfold readText
  simp only
  split
  · exact readJson_error fresh'
  · exact readYaml_error fresh'

theorem exists_fileHolds {f : List String × String} (hnames : ∀ name ∈ f.1, Path.IsName name)
    (hcase : isCaseFile f.1 = true) (h : ∃ cases, FileHolds fresh f cases) :
    ∃ cases, FileHolds fresh' f cases := by
  obtain ⟨cases, hcases⟩ := h
  have hok := (readText_eq_ok_iff fresh "" hnames hcase).mpr hcases
  cases hread : readText fresh' (Path.below "" f.1) f.2 with
  | ok cases' => exact ⟨cases', (readText_eq_ok_iff fresh' "" hnames hcase).mp hread⟩
  | error fault =>
    rw [readText_error fresh hread] at hok
    cases hok

end fresh

/-! ## Files in order -/

/-- What files hold, one by one. The cases are numbered over all of them, from `start` on. -/
inductive Gathered (fresh : Nat → String) :
    Nat → List (List String × String) → List (List TestCase) → Prop
  | nil {start : Nat} : Gathered fresh start [] []
  | cons {start : Nat} {f : List String × String} {files : List (List String × String)}
      {cases : List TestCase} {parts : List (List TestCase)}
      (hfile : FileHolds (fun n => fresh (start + n)) f cases)
      (hrest : Gathered fresh (start + cases.length) files parts) :
      Gathered fresh start (f :: files) (cases :: parts)

/-- What comes of loading files in their order: all their cases, or the error of the first file that holds
none. -/
inductive Loaded (fresh : Nat → String) (base : String) (start : Nat)
    (files : List (List String × String)) : Except CaseFileError (List TestCase) → Prop
  | all {parts : List (List TestCase)} (hparts : Gathered fresh start files parts) :
      Loaded fresh base start files (.ok parts.flatten)
  | failed {before after : List (List String × String)} {f : List String × String} {fault : CaseFault}
      (hfiles : files = before ++ f :: after) (hbefore : ∀ g ∈ before, ∃ cases, FileHolds fresh g cases)
      (hnone : ¬∃ cases, FileHolds fresh f cases)
      (hfault : readText fresh (Path.below base f.1) f.2 = .error fault) :
      Loaded fresh base start files (.error { path := Path.below base f.1, fault })

theorem loaded_readFiles (fresh : Nat → String) (base : String) (start : Nat)
    {files : List (List String × String)} (hnames : ∀ f ∈ files, ∀ name ∈ f.1, Path.IsName name)
    (hcase : ∀ f ∈ files, isCaseFile f.1 = true) :
    Loaded fresh base start files
      (readFiles fresh base start (files.map fun f => (f.1, .ok f.2))) := by
  -- The names for the cases of a file begin where those of the files before it end.
  induction files generalizing start with
  | nil => exact .all .nil
  | cons f files ih =>
    obtain ⟨hname, hnames⟩ := List.forall_mem_cons.mp hnames
    obtain ⟨hfirst, hcase⟩ := List.forall_mem_cons.mp hcase
    rw [List.map_cons, readFiles, readFile]
    cases hread : readText (fun n => fresh (start + n)) (Path.below base f.1) f.2 with
    | error fault =>
      have hfault := readText_error fresh hread
      refine .failed (List.nil_append _).symm (List.forall_mem_nil _) ?_ hfault
      rintro ⟨cases, hcases⟩
      rw [(readText_eq_ok_iff fresh base hname hfirst).mpr hcases] at hfault
      cases hfault
    | ok cases =>
      have hholds := (readText_eq_ok_iff (fun n => fresh (start + n)) base hname hfirst).mp hread
      have hrest := ih (start + cases.length) hnames hcase
      simp only [mapError_ok]
      generalize readFiles fresh base (start + cases.length) _ = result at hrest
      cases hrest with
      | all hparts => exact .all (.cons hholds hparts)
      | failed hfiles hbefore hnone hfault =>
        refine .failed (congrArg (f :: ·) hfiles) (List.forall_mem_cons.mpr ⟨?_, hbefore⟩) hnone hfault
        exact exists_fileHolds fresh hname hfirst ⟨cases, hholds⟩

/-! ## Folders -/

/-- The files of a tree below a folder: different paths made of names, each with a text. -/
structure IsTree (files : List (List String × String)) : Prop where
  distinct : (files.map Prod.fst).Nodup
  names : ∀ f ∈ files, ∀ name ∈ f.1, Path.IsName name

/-- The case files among files, in the order of their paths. -/
def caseFiles (files : List (List String × String)) : List (List String × String) :=
  (files.filter fun f => isCaseFile f.1).mergeSort fun f g => Path.before f.1 g.1

theorem load_eq (fresh : Nat → String) (base : String) (files : List (List String × String)) :
    load fresh base (.folder files) =
      readFiles fresh base 0 ((caseFiles files).map fun f => (f.1, .ok f.2)) := by
  have hmap : (caseFiles files).map (fun f => ((f.1, .ok f.2) : List String × Reading)) =
      inOrder (readings files []) := by
    rw [inOrder, readings, List.filterMap_nil, List.append_nil, List.filter_map]
    exact List.map_mergeSort fun _ _ _ _ => rfl
  rw [load, hmap]

theorem mem_caseFiles {files : List (List String × String)} {f : List String × String} :
    f ∈ caseFiles files ↔ f ∈ files ∧ isCaseFile f.1 = true := by
  rw [caseFiles, List.mem_mergeSort, List.mem_filter]

theorem IsTree.caseFiles_lt {files : List (List String × String)} (h : IsTree files) :
    (caseFiles files).Pairwise fun f g => f.1 < g.1 := by
  have hbefore : (caseFiles files).Pairwise fun f g => Path.before f.1 g.1 = true := by
    refine List.pairwise_mergeSort ?_ ?_ _
    · exact fun _ _ _ => Path.before_trans
    · exact fun f g => Path.before_total f.1 g.1
  have hdistinct : (caseFiles files).Pairwise fun f g => f.1 ≠ g.1 := by
    have hfilter : (files.filter fun f => isCaseFile f.1).Pairwise fun f g => f.1 ≠ g.1 :=
      (List.pairwise_map.mp h.distinct).filter _
    exact (List.mergeSort_perm _ _).symm.pairwise hfilter fun hne => hne.symm
  refine (hbefore.and hdistinct).imp ?_
  rintro f g ⟨hle, hne⟩
  exact (Path.before_iff.mp hle).resolve_right hne

theorem IsTree.perm {files walk : List (List String × String)} (h : IsTree files)
    (hwalk : walk.Perm files) : IsTree walk where
  distinct := (hwalk.map Prod.fst).nodup_iff.mpr h.distinct
  names f hf := h.names f (hwalk.mem_iff.mp hf)

/-- There is only one order of the case files of a tree. -/
theorem IsTree.caseFiles_perm {files walk : List (List String × String)} (h : IsTree files)
    (hwalk : walk.Perm files) : caseFiles walk = caseFiles files := by
  have hperm : (caseFiles walk).Perm (caseFiles files) :=
    (List.mergeSort_perm _ _).trans ((hwalk.filter _).trans (List.mergeSort_perm _ _).symm)
  refine hperm.eq_of_pairwise ?_ (h.perm hwalk).caseFiles_lt h.caseFiles_lt
  intro f g _ _ hlt hgt
  exact absurd (List.lt_trans hlt hgt) (List.lt_irrefl f.1)

/-- The cases of a folder are those of its case files, one file after the other in the order of their paths,
or there is the error of the first of them that holds no cases. In which order the files are listed plays no
part. -/
theorem load_folder (fresh : Nat → String) (base : String) {files : List (List String × String)}
    (h : IsTree files) :
    (∃ ordered : List (List String × String),
      (∀ f, f ∈ ordered ↔ f ∈ files ∧ ∃ extension ∈ extensions, HasExtension extension f.1) ∧
      ordered.Pairwise (fun f g => f.1 < g.1) ∧
      Loaded fresh base 0 ordered (load fresh base (.folder files))) ∧
    ∀ walk : List (List String × String), walk.Perm files →
      load fresh base (.folder walk) = load fresh base (.folder files) := by
  constructor
  · refine ⟨caseFiles files, fun f => ?_, h.caseFiles_lt, ?_⟩
    · rw [mem_caseFiles, isCaseFile_iff]
    · rw [load_eq]
      exact loaded_readFiles fresh base 0 (fun f hf => h.names f (mem_caseFiles.mp hf).1)
        fun f hf => (mem_caseFiles.mp hf).2
  · intro walk hwalk
    rw [load_eq, load_eq, h.caseFiles_perm hwalk]

/-- A tree with case files in all three shapes and both formats, and another file. -/
def sampleTree : List (List String × String) :=
  [(["notes.txt"], "steps: 12"),
    (["a.yml"], "- id: listed\n  steps: [Wait]\n- steps: []\n"),
    (["a", "z.yaml"], "id: deep\nsteps: []\n"),
    (["a-b", "c.json"], "\x7b\"cases\": [\x7b\"steps\": []\x7d, \x7b\"id\": \"c\", \"steps\": []\x7d]\x7d")]

theorem load_folder_sampleTree :
    let fresh : Nat → String := fun n => "case-" ++ toString n
    IsTree sampleTree ∧
      (∃ ordered : List (List String × String),
        (∀ f, f ∈ ordered ↔ f ∈ sampleTree ∧ ∃ extension ∈ extensions, HasExtension extension f.1) ∧
        ordered.Pairwise (fun f g => f.1 < g.1) ∧
        Loaded fresh "t" 0 ordered (load fresh "t" (.folder sampleTree))) ∧
      load fresh "t" (.folder sampleTree.reverse) = load fresh "t" (.folder sampleTree) := by
  intro fresh
  have htree : IsTree sampleTree := ⟨by decide, by decide⟩
  obtain ⟨hloaded, hwalk⟩ := load_folder fresh "t" htree
  exact ⟨htree, hloaded, hwalk _ (List.reverse_perm _)⟩

end CaseFile

end PlainSteps
