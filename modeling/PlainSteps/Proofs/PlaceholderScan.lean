import Mathlib.Data.List.Induction
import PlainSteps.Proofs.AsciiCharacters
import PlainSteps.Proofs.PatternWays
import PlainSteps.Proofs.Substitution

/-!
# Placeholders read from left to right

Substitution is one reading of the text from left to right (`Variables.Scan`): where a name between
braces begins, the text of a bound name stands in its place, an unbound one stays, and the reading goes
on after the closing brace; every other character stays. The same text comes of finding all matches of
the form of a placeholder and replacing each of them, with a text returned at once when nothing is
stored or it holds no brace (`Variables.replaceAll`).

* `Variables.placeholder?_eq_some_iff` : which text begins with a name and a closing brace.
* `Variables.scan_iff` : a reading comes to what is substituted, and to nothing else.
* `Variables.get?_ofSets` : after any assignments a name has the text that was last assigned to it.
* `Variables.findFrom_placeholder` : by induction on the text, the first match of the form and what is
  substituted up to it; `Variables.replacing_findAllFrom` goes through the matches one after the other.
* `Variables.substitute_in_one_pass` : all this for the variables that any assignments lead to.
-/

namespace PlainSteps

/-- The text from a place on, with something in the place of each of the pieces found. -/
def Pattern.replacing {κ : Type} (fill : Pattern.Found κ → List Char) :
    Place → List (Pattern.Found κ) → List Char
  | a, [] => a.after
  | a, f :: fs => a.upTo f.start ++ fill f ++ replacing fill f.stop fs

namespace Variables

open Text Pattern

variable (vars : Variables)

/-! ## Placeholders -/

/-- A name between braces. -/
def braced (name : List Char) : List Char := '{' :: (name ++ ['}'])

theorem braced_append (name rest : List Char) :
    braced name ++ rest = '{' :: (name ++ '}' :: rest) := by
  simp [braced]

/-- A placeholder begins where the text does. -/
def BeginsPlaceholder (s : List Char) : Prop :=
  ∃ name, isName name = true ∧ braced name <+: s

theorem placeholder?_eq_some_iff {s name rest : List Char} :
    placeholder? s = some (name, rest) ↔ isName name = true ∧ s = name ++ '}' :: rest := by
  constructor
  · intro h
    simp only [placeholder?] at h
    split at h
    · rename_i r hdrop
      split at h
      · rename_i hname
        obtain ⟨rfl, rfl⟩ := Prod.mk.inj (Option.some.inj h)
        refine ⟨hname, ?_⟩
        rw [← hdrop]
        exact (List.prefix_iff_eq_append.mp (List.takeWhile_prefix continuesName)).symm
      · cases h
    · cases h
  · rintro ⟨hname, rfl⟩
    exact placeholder?_name hname (continuesName_of_isName hname) rest

theorem beginsPlaceholder_brace {s : List Char} :
    BeginsPlaceholder ('{' :: s) ↔ ∃ p, placeholder? s = some p := by
  constructor
  · rintro ⟨name, hname, rest, hs⟩
    rw [braced_append] at hs
    exact ⟨(name, rest), placeholder?_eq_some_iff.mpr ⟨hname, (List.cons.inj hs).2.symm⟩⟩
  · rintro ⟨⟨name, rest⟩, h⟩
    obtain ⟨hname, rfl⟩ := placeholder?_eq_some_iff.mp h
    exact ⟨name, hname, rest, braced_append name rest⟩

/-! ## What is substituted -/

theorem substituteChars_braced {name : List Char} (hname : isName name = true) (rest : List Char) :
    vars.substituteChars (braced name ++ rest) = vars.replacement name ++ vars.substituteChars rest := by
  rw [braced_append]
  exact vars.substituteChars_placeholder (placeholder?_eq_some_iff.mpr ⟨hname, rfl⟩)

theorem substituteChars_other {c : Char} {s : List Char} (h : ¬BeginsPlaceholder (c :: s)) :
    vars.substituteChars (c :: s) = c :: vars.substituteChars s := by
  by_cases hc : c = '{'
  · subst hc
    rw [beginsPlaceholder_brace, ← Option.isSome_iff_exists, Bool.not_eq_true,
      Option.isSome_eq_false_iff, Option.isNone_iff_eq_none] at h
    exact vars.substituteChars_brace h
  · exact vars.substituteChars_cons hc s

variable {vars}

theorem replacement_of_some {name : List Char} {text : String}
    (h : vars.get? (String.ofList name) = some text) : vars.replacement name = text.toList := by
  rw [replacement, h]

theorem replacement_of_none {name : List Char} (h : vars.get? (String.ofList name) = none) :
    vars.replacement name = braced name := by
  rw [replacement, h]
  rfl

/-! ## One reading -/

/-- What comes of a text that is read once from left to right. -/
inductive Scan (value : String → Option String) : List Char → List Char → Prop where
  | done : Scan value [] []
  /-- The text of a name stands in its place and is not read. -/
  | bound {name rest out : List Char} {text : String} (hname : isName name = true)
      (hvalue : value (String.ofList name) = some text) (hrest : Scan value rest out) :
      Scan value (braced name ++ rest) (text.toList ++ out)
  /-- A name without a text stays with its braces. -/
  | unbound {name rest out : List Char} (hname : isName name = true)
      (hvalue : value (String.ofList name) = none) (hrest : Scan value rest out) :
      Scan value (braced name ++ rest) (braced name ++ out)
  /-- A character at which no placeholder begins stays. -/
  | other {c : Char} {rest out : List Char} (hother : ¬BeginsPlaceholder (c :: rest))
      (hrest : Scan value rest out) : Scan value (c :: rest) (c :: out)

theorem placeholder_cases {P : List Char → Prop} (nil : P [])
    (braced : ∀ name rest, isName name = true → P rest → P (braced name ++ rest))
    (other : ∀ c rest, ¬BeginsPlaceholder (c :: rest) → P rest → P (c :: rest)) (s : List Char) :
    P s := by
  match s with
  | [] => exact nil
  | c :: t =>
    by_cases h : BeginsPlaceholder (c :: t)
    · obtain ⟨name, hname, rest, hs⟩ := h
      have hlt : rest.length < (c :: t).length := by
        rw [← hs, braced_append, List.length_cons, List.length_append, List.length_cons]
        omega
      rw [← hs]
      exact braced name rest hname (placeholder_cases nil braced other rest)
    · exact other c t h (placeholder_cases nil braced other t)
termination_by s.length
decreasing_by
  · exact hlt
  · exact Nat.lt_succ_self _

theorem scan_substituteChars (s : List Char) : Scan vars.get? s (vars.substituteChars s) := by
  induction s using placeholder_cases with
  | nil =>
    rw [substituteChars_nil]
    exact .done
  | braced name rest hname ih =>
    rw [substituteChars_braced vars hname]
    cases hvalue : vars.get? (String.ofList name) with
    | some text =>
      rw [replacement_of_some hvalue]
      exact .bound hname hvalue ih
    | none =>
      rw [replacement_of_none hvalue]
      exact .unbound hname hvalue ih
  | other c rest h ih =>
    rw [substituteChars_other vars h]
    exact .other h ih

theorem Scan.eq {s out : List Char} (h : Scan vars.get? s out) : vars.substituteChars s = out := by
  induction h with
  | done => exact substituteChars_nil vars
  | bound hname hvalue _ ih =>
    rw [substituteChars_braced vars hname, replacement_of_some hvalue, ih]
  | unbound hname hvalue _ ih =>
    rw [substituteChars_braced vars hname, replacement_of_none hvalue, ih]
  | other hother _ ih => rw [substituteChars_other vars hother, ih]

theorem scan_iff {s out : List Char} : Scan vars.get? s out ↔ vars.substituteChars s = out :=
  ⟨Scan.eq, fun h => h ▸ scan_substituteChars s⟩

/-! ## What stays -/

theorem substituteChars_of_unbound {s : List Char}
    (h : ∀ name, isName name = true → braced name <:+: s → vars.get? (String.ofList name) = none) :
    vars.substituteChars s = s := by
  induction s using placeholder_cases with
  | nil => exact substituteChars_nil vars
  | braced name rest hname ih =>
    have hvalue := h name hname (List.prefix_append _ rest).isInfix
    rw [substituteChars_braced vars hname, replacement_of_none hvalue,
      ih fun other hother hin => h other hother (hin.trans (List.suffix_append _ rest).isInfix)]
  | other c rest hc ih =>
    rw [substituteChars_other vars hc,
      ih fun other hother hin => h other hother (hin.trans (List.suffix_cons c rest).isInfix)]

theorem get?_of_size (h : vars.size = 0) (name : String) : vars.get? name = none := by
  rw [get?, List.eq_nil_of_length_eq_zero h]
  rfl

theorem substituteChars_at_once {s : List Char} (h : vars.size = 0 ∨ '{' ∉ s) :
    vars.substituteChars s = s := by
  rcases h with h | h
  · exact substituteChars_of_unbound fun name _ _ => get?_of_size h _
  · exact substituteChars_eq_self vars h

/-- Of doubled braces the inner ones are those of the placeholder. -/
theorem substituteChars_doubled (vars : Variables) {name : List Char} (hname : isName name = true)
    (s t : List Char) :
    vars.substituteChars (s ++ '{' :: (braced name ++ '}' :: t)) =
      vars.substituteChars s ++ '{' :: (vars.replacement name ++ '}' :: vars.substituteChars t) := by
  have hopen : ¬BeginsPlaceholder ('{' :: (braced name ++ '}' :: t)) := by
    rw [beginsPlaceholder_brace]
    rintro ⟨⟨n, rest⟩, hn⟩
    obtain ⟨hn, hs⟩ := placeholder?_eq_some_iff.mp hn
    cases n with
    | nil => cases hn
    | cons c n =>
      -- a name does not begin with a brace
      obtain ⟨rfl, -⟩ := List.cons.inj hs
      simp [isName] at hn
      exact absurd hn.1 (by decide)
  rw [vars.substituteChars_append_break (by decide) (by decide), substituteChars_other vars hopen,
    substituteChars_braced vars hname, vars.substituteChars_cons (by decide)]

/-! ## Assignments -/

/-- The variables that assignments lead to, made one after the other. -/
def ofSets (sets : List (String × String)) : Variables :=
  sets.foldl (fun vars p => vars.set p.1 p.2) empty

/-- The text last assigned to a name, trimmed. -/
def lastSet (sets : List (String × String)) (name : String) : Option String :=
  (sets.reverse.find? (·.1 == name)).map fun p => trim p.2

theorem lastSet_concat (sets : List (String × String)) (p : String × String) (name : String) :
    lastSet (sets ++ [p]) name = if p.1 = name then some (trim p.2) else lastSet sets name := by
  rw [lastSet, List.reverse_append, List.reverse_singleton, List.singleton_append, List.find?_cons]
  by_cases h : p.1 = name
  · simp [h]
  · rw [if_neg h, beq_eq_false_iff_ne.mpr h]
    rfl

theorem get?_ofSets (sets : List (String × String)) : (ofSets sets).get? = lastSet sets := by
  funext name
  induction sets using List.reverseRecOn with
  | nil => rfl
  | append_singleton sets p ih =>
    have hlast : ofSets (sets ++ [p]) = (ofSets sets).set p.1 p.2 := by
      rw [ofSets, List.foldl_append]
      rfl
    rw [hlast, lastSet_concat]
    by_cases h : p.1 = name
    · rw [if_pos h, ← h, get?_set_self]
    · rw [if_neg h, get?_set_of_ne _ _ (Ne.symm h), ih]

/-! ## All matches replaced -/

/-- The form of a placeholder, with the name labelled. -/
def placeholderForm : Pattern Unit :=
  both (one (· == '{'))
    (both (part () (both (one startsName) (many continuesName))) (one (· == '}')))

/-- What the form finds where a placeholder begins. -/
def foundPlaceholder (before name rest : List Char) : Found Unit where
  start := ⟨before, braced name ++ rest⟩
  stop := ⟨(braced name).reverse ++ before, rest⟩
  parts := [((), ⟨'{' :: before, name ++ '}' :: rest⟩, ⟨name.reverse ++ '{' :: before, '}' :: rest⟩)]

theorem text_foundPlaceholder (before name rest : List Char) :
    (foundPlaceholder before name rest).text = braced name :=
  Place.upTo_append before (braced name) rest

theorem part_foundPlaceholder (before name rest : List Char) :
    (foundPlaceholder before name rest).part () = name :=
  Place.upTo_append ('{' :: before) name ('}' :: rest)

theorem mem_ways_placeholder {before s : List Char} {r : Place × Parts Unit} :
    r ∈ placeholderForm.ways ⟨before, s⟩ [] ↔ ∃ name rest, isName name = true ∧
      s = braced name ++ rest ∧
      r = ((foundPlaceholder before name rest).stop, (foundPlaceholder before name rest).parts) := by
  constructor
  · intro h
    obtain ⟨m, hopen, h⟩ := mem_ways_both.mp h
    obtain ⟨m', hname, hclose⟩ := mem_ways_both.mp h
    obtain ⟨c, t, hs, hc, rfl⟩ := mem_ways_one.mp hopen
    obtain ⟨m'', hread, rfl⟩ := mem_ways_part.mp hname
    obtain ⟨m₁, hfirst, hlater⟩ := mem_ways_both.mp hread
    obtain ⟨d, u, ht, hd, rfl⟩ := mem_ways_one.mp hfirst
    obtain ⟨v, hu, hbefore, hv, hparts⟩ := mem_ways_many.mp hlater
    obtain ⟨e, rest, hafter, he, rfl⟩ := mem_ways_one.mp hclose
    obtain ⟨⟨b, after⟩, parts⟩ := m''
    simp only [beq_iff_eq] at hc he hs ht hu hbefore hparts hafter
    subst hc he hs ht hu hbefore hparts hafter
    refine ⟨d :: v, rest, ?_, ?_, ?_⟩
    · simpa [isName, hd] using hv
    · simp [braced]
    · simp [foundPlaceholder, braced]
  · rintro ⟨name, rest, hname, rfl, rfl⟩
    cases name with
    | nil => cases hname
    | cons d v =>
      simp only [isName, Bool.and_eq_true, List.all_eq_true] at hname
      refine mem_ways_both.mpr ⟨(⟨'{' :: before, d :: (v ++ '}' :: rest)⟩, []),
        mem_ways_one.mpr ⟨'{', _, by simp [braced], rfl, rfl⟩, ?_⟩
      refine mem_ways_both.mpr ⟨_, mem_ways_part.mpr
        ⟨(⟨v.reverse ++ d :: '{' :: before, '}' :: rest⟩, []), ?_, rfl⟩, ?_⟩
      · exact mem_ways_both.mpr ⟨_, mem_ways_one.mpr ⟨d, _, rfl, hname.1, rfl⟩,
          mem_ways_many.mpr ⟨v, rfl, rfl, hname.2, rfl⟩⟩
      · exact mem_ways_one.mpr ⟨'}', rest, rfl, rfl, by simp [foundPlaceholder, braced]⟩

theorem matchAt?_placeholder {name : List Char} (hname : isName name = true)
    (before rest : List Char) : placeholderForm.matchAt? ⟨before, braced name ++ rest⟩ =
      some (foundPlaceholder before name rest) := by
  have hmem : ((foundPlaceholder before name rest).stop, (foundPlaceholder before name rest).parts) ∈
      placeholderForm.ways ⟨before, braced name ++ rest⟩ [] :=
    mem_ways_placeholder.mpr ⟨name, rest, hname, rfl, rfl⟩
  refine first_of_all ⟨_, hmem⟩ (fun r hr => ?_) _
  obtain ⟨name', rest', hname', hs, rfl⟩ := mem_ways_placeholder.mp hr
  have hread : placeholder? (name ++ '}' :: rest) = some (name, rest) :=
    placeholder?_eq_some_iff.mpr ⟨hname, rfl⟩
  rw [braced_append, braced_append] at hs
  rw [(List.cons.inj hs).2, placeholder?_eq_some_iff.mpr ⟨hname', rfl⟩] at hread
  obtain ⟨rfl, rfl⟩ := Prod.mk.inj (Option.some.inj hread)
  rfl

theorem matchAt?_other {s : List Char} (h : ¬BeginsPlaceholder s) (before : List Char) :
    placeholderForm.matchAt? ⟨before, s⟩ = none := by
  refine matchAt?_eq_none_iff.mpr fun r hr => ?_
  obtain ⟨name, rest, hname, rfl, -⟩ := mem_ways_placeholder.mp hr
  exact h ⟨name, hname, List.prefix_append _ rest⟩

theorem findFrom_placeholder (vars : Variables) (before s : List Char) :
    (placeholderForm.findFrom before s = none ∧ vars.substituteChars s = s) ∨
      ∃ u name rest, isName name = true ∧ s = u ++ (braced name ++ rest) ∧
        placeholderForm.findFrom before s = some (foundPlaceholder (u.reverse ++ before) name rest) ∧
        vars.substituteChars s = u ++ (vars.replacement name ++ vars.substituteChars rest) := by
  induction s generalizing before with
  | nil =>
    refine .inl ⟨matchAt?_other ?_ before, substituteChars_nil vars⟩
    rintro ⟨name, -, hs⟩
    cases List.prefix_nil.mp hs
  | cons c s ih =>
    by_cases h : BeginsPlaceholder (c :: s)
    · obtain ⟨name, hname, rest, hs⟩ := h
      refine .inr ⟨[], name, rest, hname, hs.symm, ?_, ?_⟩
      · rw [findFrom, ← hs, matchAt?_placeholder hname]
        rfl
      · rw [← hs, substituteChars_braced vars hname]
        rfl
    · have hfind : placeholderForm.findFrom before (c :: s) =
          placeholderForm.findFrom (c :: before) s := by
        rw [findFrom, matchAt?_other h]
      rw [hfind, substituteChars_other vars h]
      rcases ih (c :: before) with ⟨hnone, hsame⟩ | ⟨u, name, rest, hname, rfl, hsome, hread⟩
      · exact .inl ⟨hnone, by rw [hsame]⟩
      · refine .inr ⟨c :: u, name, rest, hname, rfl, ?_, by rw [hread, List.cons_append]⟩
        rw [hsome, List.reverse_cons, List.append_assoc, List.singleton_append]

/-- What stands in the place of a match. -/
def filled (vars : Variables) (f : Found Unit) : List Char :=
  match vars.get? (String.ofList (f.part ())) with
  | some value => value.toList
  | none => f.text

theorem filled_foundPlaceholder (before name rest : List Char) :
    vars.filled (foundPlaceholder before name rest) = vars.replacement name := by
  rw [filled, part_foundPlaceholder, text_foundPlaceholder]
  rfl

theorem replacing_findAllFrom {n : Nat} {before s : List Char} (hn : s.length < n) :
    replacing vars.filled ⟨before, s⟩ (placeholderForm.findAllFrom n ⟨before, s⟩) =
      vars.substituteChars s := by
  induction n generalizing before s with
  | zero => cases hn
  | succ n ih =>
    rw [findAllFrom]
    rcases vars.findFrom_placeholder before s with
      ⟨hnone, hsame⟩ | ⟨u, name, rest, -, rfl, hsome, hread⟩
    · rw [hnone, hsame]
      rfl
    · have hlt : rest.length < (u ++ (braced name ++ rest)).length := by
        simp only [braced, List.length_append, List.length_cons]
        omega
      have hrest := @ih ((braced name).reverse ++ (u.reverse ++ before)) rest (by omega)
      have hupTo := Place.upTo_append before u (braced name ++ rest)
      rw [hsome, hread]
      simp only [foundPlaceholder, hlt, if_true, replacing, hrest, hupTo, List.append_assoc]
      rw [← filled_foundPlaceholder (u.reverse ++ before) name rest]
      rfl

/-- The text with each match of the form of a placeholder replaced; a text that holds no brace, or to
which nothing that is stored applies, is returned at once. -/
def replaceAll (vars : Variables) (text : String) : String :=
  if vars.size = 0 ∨ '{' ∉ text.toList then text
  else String.ofList (replacing vars.filled (Place.start text.toList)
    (placeholderForm.findAll text.toList))

theorem replaceAll_eq_substitute (vars : Variables) (text : String) :
    vars.replaceAll text = vars.substitute text := by
  rw [replaceAll, substitute]
  split
  · rename_i h
    rw [substituteChars_at_once h, String.ofList_toList]
  · rw [findAll, Place.start, replacing_findAllFrom (Nat.lt_succ_self _)]

/-! ## Substitution -/

/-- After any assignments, what is substituted is what one reading of the text from left to right comes
to, and what comes of replacing all matches of the form of a placeholder. A text without a bound
placeholder stays as it is, as it does where it is returned at once; of doubled braces the inner ones are
those of the placeholder. -/
theorem substitute_in_one_pass (sets : List (String × String)) (text : String) :
    (∀ out, Scan (lastSet sets) text.toList out.toList ↔ (ofSets sets).substitute text = out) ∧
      (ofSets sets).replaceAll text = (ofSets sets).substitute text ∧
      ((ofSets sets).size = 0 ∨ '{' ∉ text.toList → (ofSets sets).substitute text = text) ∧
      ((∀ name value, isName name.toList = true → lastSet sets name = some value →
          ¬braced name.toList <:+: text.toList) → (ofSets sets).substitute text = text) ∧
      ∀ before name value after, text = before ++ "\x7b\x7b" ++ name ++ "\x7d\x7d" ++ after →
        isName name.toList = true → lastSet sets name = some value →
        (ofSets sets).substitute text = (ofSets sets).substitute before ++ "\x7b" ++ value ++ "\x7d" ++
          (ofSets sets).substitute after := by
  rw [← get?_ofSets]
  generalize ofSets sets = vars
  refine ⟨fun out => ?_, replaceAll_eq_substitute vars text, fun h => ?_, fun h => ?_, ?_⟩
  · rw [scan_iff, substitute, String.ext_iff, String.toList_ofList]
  · rw [substitute, substituteChars_at_once h, String.ofList_toList]
  · rw [substitute, substituteChars_of_unbound, String.ofList_toList]
    intro name hname hin
    cases hvalue : vars.get? (String.ofList name) with
    | none => rfl
    | some value =>
      refine absurd ?_ (h (String.ofList name) value ?_ hvalue)
      · rwa [String.toList_ofList]
      · rwa [String.toList_ofList]
  · rintro before name value after rfl hname hvalue
    have hreplaced : vars.replacement name.toList = value.toList :=
      replacement_of_some (by rw [String.ofList_toList, hvalue])
    have h := vars.substituteChars_doubled hname before.toList after.toList
    rw [String.ext_iff]
    simpa [substitute, braced, hreplaced] using h

/-- A name assigned twice, and one whose text holds a placeholder. -/
def reassigned : List (String × String) := [("a", "x"), ("a", " \x7bb\x7d "), ("b", "oops")]

theorem substitute_in_one_pass_nested :
    (isName "a".toList = true ∧ lastSet reassigned "a" = some "\x7bb\x7d" ∧
      (ofSets reassigned).substitute "Verify \x7b\x7ba\x7d\x7d \x7bc" =
        (ofSets reassigned).substitute "Verify " ++ "\x7b" ++ "\x7bb\x7d" ++ "\x7d" ++
          (ofSets reassigned).substitute " \x7bc") ∧
      ('{' ∉ "Verify".toList ∧ (ofSets reassigned).substitute "Verify" = "Verify") ∧
      ((∀ name value, isName name.toList = true → lastSet reassigned name = some value →
          ¬braced name.toList <:+: "\x7bc\x7d \x7ba".toList) ∧
        (ofSets reassigned).substitute "\x7bc\x7d \x7ba" = "\x7bc\x7d \x7ba") := by
  have hname : isName "a".toList = true := by decide
  have hlast : lastSet reassigned "a" = some "\x7bb\x7d" := by decide
  have hbrace : '{' ∉ "Verify".toList := by decide
  have hunbound : ∀ name value, isName name.toList = true → lastSet reassigned name = some value →
      ¬braced name.toList <:+: "\x7bc\x7d \x7ba".toList := by
    intro name value _ hvalue
    obtain ⟨p, hp, -⟩ := Option.map_eq_some_iff.mp hvalue
    have hassigned : name = "a" ∨ name = "b" := by
      have hp₁ := List.find?_some hp
      have hp₂ := List.mem_of_find?_eq_some hp
      simp [reassigned] at hp₁ hp₂
      grind
    rcases hassigned with rfl | rfl <;> decide +kernel
  exact ⟨⟨hname, hlast, (substitute_in_one_pass reassigned _).2.2.2.2 "Verify " "a" _ " \x7bc" rfl
      hname hlast⟩,
    ⟨hbrace, (substitute_in_one_pass reassigned _).2.2.1 (.inr hbrace)⟩,
    ⟨hunbound, (substitute_in_one_pass reassigned _).2.2.2.1 hunbound⟩⟩

end Variables

end PlainSteps
