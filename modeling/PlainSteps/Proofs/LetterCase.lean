import PlainSteps.Proofs.AsciiCharacters
import PlainSteps.Proofs.FormWays

/-!
# Sentences in another case

No form of a sentence tells a letter from the same letter in lower case, so a form is read on a text in
the ways in which it is read on the text in lower case (`Pattern.match?_map`), and found where it is found
there (`Pattern.find?_map`, `Pattern.findAll_map`). That is a congruence over patterns: it holds of any
change of characters that none of the tests of a pattern notices (`Pattern.Ignores`), and is carried up
from the tests by induction (`Pattern.ways_map`).

`Form.ignores_chain` and its companions say that the forms are made of tests that do not notice the case
of a letter; each such test is checked on the characters of ASCII (`tests_lower`).
-/

namespace PlainSteps

open Text

/-- The place with all characters of the text changed. -/
def Place.map (f : Char → Char) (a : Place) : Place := ⟨a.before.map f, a.after.map f⟩

theorem Place.upTo_map (f : Char → Char) (p q : Place) :
    (p.map f).upTo (q.map f) = (p.upTo q).map f := by
  simp only [upTo, map, List.length_map, List.map_reverse, List.map_take]

namespace Pattern

variable {κ : Type} {f : Char → Char}

/-- No test of the pattern tells a character from what it is changed to. -/
def Ignores (f : Char → Char) : Pattern κ → Prop
  | one accepts | many accepts | few accepts | edge accepts => ∀ c, accepts (f c) = accepts c
  | both p q | either p q => p.Ignores f ∧ q.Ignores f
  | part _ p => p.Ignores f
  | nothing | textStart | textEnd => True

/-- The parts with all characters of the text changed. -/
def Parts.map (f : Char → Char) (parts : Parts κ) : Parts κ :=
  List.map (fun e => (e.1, e.2.1.map f, e.2.2.map f)) parts

/-- What was found, with all characters of the text changed. -/
def Found.map (f : Char → Char) (x : Found κ) : Found κ :=
  ⟨x.start.map f, x.stop.map f, x.parts.map f⟩

theorem reachable_map {accepts : Char → Bool} (h : ∀ c, accepts (f c) = accepts c)
    (before after : List Char) :
    reachable accepts (before.map f) (after.map f) =
      (reachable accepts before after).map (·.map f) := by
  induction after generalizing before with
  | nil => rfl
  | cons c s ih =>
    rw [List.map_cons, reachable, reachable, h c]
    by_cases hc : accepts c = true
    · rw [if_pos hc, if_pos hc, List.map_append, ← ih, List.map_cons]
      rfl
    · rw [if_neg hc, if_neg hc]
      rfl

theorem onEdge_map {inside : Char → Bool} (h : ∀ c, inside (f c) = inside c) (a : Place) :
    onEdge inside (a.map f) = onEdge inside a := by
  have hany : ∀ s : List Char, (s.map f).head?.any inside = s.head?.any inside := by
    intro s
    cases s with
    | nil => rfl
    | cons c s => exact h c
  rw [onEdge, onEdge, Place.map, hany, hany]

/-- A pattern that does not notice a change of characters is read on the changed text in the changed
ways. -/
theorem ways_map {p : Pattern κ} (hp : p.Ignores f) (a : Place) (parts : Parts κ) :
    p.ways (a.map f) (parts.map f) = (p.ways a parts).map fun r => (r.1.map f, r.2.map f) := by
  induction p generalizing a parts with
  | nothing => rfl
  | one accepts =>
    obtain ⟨before, after⟩ := a
    cases after with
    | nil => rfl
    | cons c s =>
      simp only [ways, Place.map, List.map_cons, hp c]
      by_cases hc : accepts c = true
      · simp [hc]
      · simp [hc]
  | many accepts => simp [ways, Place.map, reachable_map hp, Function.comp_def]
  | few accepts => simp [ways, Place.map, reachable_map hp, Function.comp_def]
  | both p q ihp ihq =>
    simp only [ways, ihp hp.1, List.flatMap_map, List.map_flatMap, ihq hp.2]
  | either p q ihp ihq => rw [ways, ways, ihp hp.1, ihq hp.2, List.map_append]
  | textStart =>
    obtain ⟨before, after⟩ := a
    cases before <;> rfl
  | textEnd =>
    obtain ⟨before, after⟩ := a
    cases after <;> rfl
  | edge inside =>
    by_cases h : onEdge inside a = true
    · simp [ways, onEdge_map hp, h]
    · simp [ways, onEdge_map hp, h]
  | part label p ih =>
    simp only [ways, ih hp, List.map_map]
    rfl

theorem matchAt?_map {p : Pattern κ} (hp : p.Ignores f) (a : Place) :
    p.matchAt? (a.map f) = (p.matchAt? a).map (·.map f) := by
  have hways := ways_map hp a []
  have hnil : Parts.map f ([] : Parts κ) = [] := rfl
  rw [hnil] at hways
  rw [matchAt?_eq, matchAt?_eq, hways, List.head?_map, Option.map_map, Option.map_map]
  rfl

theorem match?_map {p : Pattern κ} (hp : p.Ignores f) (s : List Char) :
    p.match? (s.map f) = (p.match? s).map (·.map f) :=
  matchAt?_map hp (Place.start s)

theorem match?_eq_none_of_map {p : Pattern κ} (hp : p.Ignores f) {s : List Char}
    (h : p.match? (s.map f) = none) : p.match? s = none := by
  rw [match?_map hp] at h
  exact Option.map_eq_none_iff.mp h

theorem Found.part_map [BEq κ] (x : Found κ) (label : κ) :
    (x.map f).part label = (x.part label).map f := by
  rw [Found.part, Found.part, Found.part?, Found.part?]
  simp only [Found.map, Parts.map, List.find?_map, Function.comp_def, Option.map_map]
  cases x.parts.find? (fun e => e.1 == label) with
  | none => rfl
  | some e =>
    simp only [Option.map_some, Option.getD_some]
    exact Place.upTo_map f e.2.1 e.2.2

theorem Found.text_map (x : Found κ) : (x.map f).text = x.text.map f :=
  Place.upTo_map f x.start x.stop

theorem matches?_map {p : Pattern κ} (hp : p.Ignores f) (s : List Char) :
    p.matches? (s.map f) = p.matches? s := by
  rw [matches?, match?_map hp, Option.isSome_map]
  rfl

theorem findFrom_map {p : Pattern κ} (hp : p.Ignores f) (before after : List Char) :
    p.findFrom (before.map f) (after.map f) = (p.findFrom before after).map (·.map f) := by
  induction after generalizing before with
  | nil => exact matchAt?_map hp ⟨before, []⟩
  | cons c after ih =>
    have hhere : p.matchAt? ⟨before.map f, f c :: after.map f⟩ =
        (p.matchAt? ⟨before, c :: after⟩).map (·.map f) := matchAt?_map hp ⟨before, c :: after⟩
    rw [List.map_cons, findFrom, findFrom, hhere]
    cases p.matchAt? ⟨before, c :: after⟩ with
    | some x => rfl
    | none => exact ih (c :: before)

theorem find?_map {p : Pattern κ} (hp : p.Ignores f) (s : List Char) :
    p.find? (s.map f) = (p.find? s).map (·.map f) :=
  findFrom_map hp [] s

theorem findAllFrom_map {p : Pattern κ} (hp : p.Ignores f) (n : Nat) (a : Place) :
    p.findAllFrom n (a.map f) = (p.findAllFrom n a).map (·.map f) := by
  induction n generalizing a with
  | zero => rfl
  | succ n ih =>
    have hfind : p.findFrom (a.map f).before (a.map f).after =
        (p.findFrom a.before a.after).map (·.map f) := findFrom_map hp a.before a.after
    rw [findAllFrom, findAllFrom, hfind]
    cases p.findFrom a.before a.after with
    | none => rfl
    | some x =>
      obtain ⟨start, ⟨before, after⟩, parts⟩ := x
      simp only [Option.map_some, Found.map, Place.map, List.length_map]
      by_cases hmoved : after.length < a.after.length
      · simp only [if_pos hmoved, List.map_cons]
        exact congrArg _ (ih ⟨before, after⟩)
      · simp only [if_neg hmoved]
        cases after with
        | nil => rfl
        | cons c rest =>
          simp only [List.map_cons]
          exact congrArg _ (ih ⟨c :: before, rest⟩)

theorem findAll_map {p : Pattern κ} (hp : p.Ignores f) (s : List Char) :
    p.findAll (s.map f) = (p.findAll s).map (·.map f) := by
  rw [findAll, findAll, List.length_map]
  exact findAllFrom_map hp _ (Place.start s)

theorem ways_of_map {p : Pattern κ} (hp : p.Ignores f) {lead rest : List Char} {parts : Parts κ}
    (h : p.ways (Place.start ((lead ++ rest).map f)) [] =
      [(⟨(lead.map f).reverse, rest.map f⟩, parts)]) :
    ∃ parts', p.ways (Place.start (lead ++ rest)) [] = [(⟨lead.reverse, rest⟩, parts')] ∧
      parts'.map f = parts := by
  have hways := ways_map hp (Place.start (lead ++ rest)) []
  have hstart : (Place.start (lead ++ rest)).map f = Place.start ((lead ++ rest).map f) := rfl
  have hnil : Parts.map f ([] : Parts κ) = [] := rfl
  rw [hstart, hnil, h] at hways
  obtain ⟨⟨b, parts'⟩, hr, heq⟩ := List.map_eq_singleton_iff.mp hways.symm
  obtain ⟨hplace, hparts⟩ := Prod.mk.inj heq
  refine ⟨parts', ?_, hparts⟩
  have htext : b.text = lead ++ rest := text_of_mem_ways (hr ▸ List.mem_singleton_self _)
  obtain ⟨before, after⟩ := b
  simp only [Place.map, Place.mk.injEq] at hplace
  have hlength : after.length = rest.length := by
    have h := congrArg List.length hplace.2
    simpa using h
  simp only [Place.text] at htext
  obtain ⟨hbefore, rfl⟩ := List.append_inj' htext hlength
  rw [hr, ← hbefore, List.reverse_reverse]

end Pattern

/-! ## Tests that do not notice the case of a letter -/

namespace Text

theorem lower_of_not_ascii {c : Char} (h : ¬c.toNat < 128) : lower c = c := by
  unfold lower
  refine if_neg ?_
  rintro ⟨-, hZ⟩
  have hle : c.toNat ≤ 'Z'.toNat := hZ
  have hval : 'Z'.toNat = 90 := rfl
  omega

theorem test_lower {α : Type} {t : Char → α}
    (h : ∀ n : Fin 128, t (lower (Char.ofNat n)) = t (Char.ofNat n)) (c : Char) :
    t (lower c) = t c := by
  by_cases hc : c.toNat < 128
  · exact forall_ascii (P := fun c => t (lower c) = t c) h hc
  · rw [lower_of_not_ascii hc]

end Text

namespace Sentence.Form

open Pattern

theorem tests_lower (c : Char) : foldCase (lower c) = foldCase c ∧ isBlank (lower c) = isBlank c ∧
    isDigit (lower c) = isDigit c ∧ isWordChar (lower c) = isWordChar c ∧ onLine (lower c) = onLine c ∧
    isLatinOrDigit (lower c) = isLatinOrDigit c ∧ isAsciiLetter (lower c) = isAsciiLetter c := by
  have h := test_lower (t := fun c => (foldCase c,
    [isBlank c, isDigit c, isWordChar c, onLine c, isLatinOrDigit c, isAsciiLetter c])) (by decide +kernel) c
  simpa using h

theorem foldCase_lower (c : Char) : foldCase (lower c) = foldCase c :=
  (tests_lower c).1

theorem isBlank_lower (c : Char) : isBlank (lower c) = isBlank c :=
  (tests_lower c).2.1

theorem isDigit_lower (c : Char) : isDigit (lower c) = isDigit c :=
  (tests_lower c).2.2.1

theorem isWordChar_lower (c : Char) : isWordChar (lower c) = isWordChar c :=
  (tests_lower c).2.2.2.1

theorem onLine_lower (c : Char) : onLine (lower c) = onLine c :=
  (tests_lower c).2.2.2.2.1

theorem isLatinOrDigit_lower (c : Char) : isLatinOrDigit (lower c) = isLatinOrDigit c :=
  (tests_lower c).2.2.2.2.2.1

theorem isLatin_lower (c : Char) : isLatin (lower c) = isLatin c := by
  simp only [isLatin, foldCase_lower]

theorem mark_lower {mark : Char} (h : isAsciiLetter mark = false) (c : Char) :
    (lower c == mark) = (c == mark) := by
  by_cases hc : isAsciiLetter c = true
  · have hletter : isAsciiLetter (lower c) = true := (tests_lower c).2.2.2.2.2.2.trans hc
    have hne : ∀ d, isAsciiLetter d = true → (d == mark) = false := by
      intro d hd
      rw [beq_eq_false_iff_ne]
      rintro rfl
      rw [h] at hd
      cases hd
    rw [hne _ hletter, hne _ hc]
  · have hsame : lower c = c := by
      unfold lower
      refine if_neg fun hZ => hc ?_
      simp [isAsciiLetter, hZ.1, hZ.2]
    rw [hsame]

/-! ## Pieces of forms -/

section pieces

variable {p : Form} {ps : List Form}

theorem ignores_chain : (chain ps).Ignores lower ↔ ∀ p ∈ ps, p.Ignores lower := by
  induction ps with
  | nil => simp [chain, Ignores]
  | cons p ps ih =>
    cases ps with
    | nil => simp [chain]
    | cons q qs =>
      have hcons : (chain (p :: q :: qs)).Ignores lower ↔
          p.Ignores lower ∧ (chain (q :: qs)).Ignores lower := Iff.rfl
      rw [hcons, ih]
      exact List.forall_mem_cons.symm

theorem ignores_anyOf : (anyOf ps).Ignores lower ↔ ∀ p ∈ ps, p.Ignores lower := by
  induction ps with
  | nil => simp [anyOf, Ignores]
  | cons p ps ih =>
    cases ps with
    | nil => simp [anyOf]
    | cons q qs =>
      have hcons : (anyOf (p :: q :: qs)).Ignores lower ↔
          p.Ignores lower ∧ (anyOf (q :: qs)).Ignores lower := Iff.rfl
      rw [hcons, ih]
      exact List.forall_mem_cons.symm

theorem ignores_optional : (optional p).Ignores lower ↔ p.Ignores lower :=
  and_iff_left trivial

theorem ignores_letter (c : Char) : (letter c).Ignores lower := by
  intro d
  simp only [foldCase_lower]

theorem ignores_word (w : String) : (word w).Ignores lower := by
  refine ignores_chain.mpr fun p hp => ?_
  obtain ⟨c, -, rfl⟩ := List.mem_map.mp hp
  exact ignores_letter c

theorem ignores_oneOf (ws : List String) : (oneOf ws).Ignores lower := by
  refine ignores_anyOf.mpr fun p hp => ?_
  obtain ⟨w, -, rfl⟩ := List.mem_map.mp hp
  exact ignores_word w

theorem ignores_stem (w ending : String) : (stem w ending).Ignores lower :=
  ⟨ignores_word w, ignores_optional.mpr (ignores_word ending)⟩

theorem ignores_blanks : blanks.Ignores lower := isBlank_lower

theorem ignores_gap : gap.Ignores lower := ⟨isBlank_lower, isBlank_lower⟩

theorem ignores_leading : (leading p).Ignores lower ↔ p.Ignores lower :=
  ignores_optional.trans (and_iff_left ignores_gap)

theorem ignores_shortText : shortText.Ignores lower := ⟨onLine_lower, onLine_lower⟩

theorem ignores_longText : longText.Ignores lower := ⟨onLine_lower, onLine_lower⟩

theorem ignores_unbroken : unbroken.Ignores lower := by
  constructor <;> intro c <;> simp only [isBlank_lower]

theorem ignores_number : number.Ignores lower := ⟨isDigit_lower, isDigit_lower⟩

theorem ignores_wordEdge : wordEdge.Ignores lower := isWordChar_lower

theorem ignores_between {opening closing : Char} (ho : isAsciiLetter opening = false)
    (hc : isAsciiLetter closing = false) : (between opening closing).Ignores lower := by
  refine ⟨mark_lower ho, ?_, mark_lower hc⟩
  intro c
  simp only [bne, mark_lower hc]

theorem ignores_quotations : ∀ p ∈ quotations, p.Ignores lower := by
  simp only [quotations, List.forall_mem_cons]
  exact ⟨ignores_between (by decide) (by decide), ignores_between (by decide) (by decide),
    ignores_between (by decide) (by decide), ignores_between (by decide) (by decide), by simp⟩

attribute [simp] Ignores ignores_chain ignores_anyOf ignores_optional ignores_word ignores_oneOf
  ignores_stem ignores_blanks ignores_gap ignores_leading ignores_shortText ignores_longText
  ignores_unbroken ignores_number ignores_wordEdge

end pieces

/-! ## Forms -/

theorem ignores_numbering : Form.numbering.Ignores lower := by
  have hmark : ∀ c, (lower c == '.' || lower c == ')' || lower c == ':') =
      (c == '.' || c == ')' || c == ':') := by
    intro c
    rw [mark_lower (by decide), mark_lower (by decide), mark_lower (by decide)]
  simp [numbering, hmark]

theorem ignores_quotation : Form.quotation.Ignores lower :=
  ignores_anyOf.mpr ignores_quotations

theorem ignores_trailingLocator : Form.trailingLocator.Ignores lower := by
  simp [trailingLocator, isBlank_lower, onLine_lower]

theorem ignores_store : Form.store.Ignores lower := by simp [store]

theorem ignores_conditional : Form.conditional.Ignores lower := by simp [conditional]

theorem ignores_pageLoad : Form.pageLoad.Ignores lower := by simp [pageLoad]

theorem ignores_duration : Form.duration.Ignores lower := by simp [duration]

theorem ignores_waitFor : Form.waitFor.Ignores lower := by simp [waitFor]

theorem ignores_click : Form.click.Ignores lower := by
  have hdash : ∀ c, (lower c == '-') = (c == '-') := mark_lower (by decide)
  simp [click, isBlank_lower, hdash]

theorem ignores_fill : Form.fill.Ignores lower := by simp [fill]

theorem ignores_quoted_or_plain : (anyOf (quotations ++ [shortText])).Ignores lower := by
  refine ignores_anyOf.mpr fun p hp => ?_
  rcases List.mem_append.mp hp with hp | hp
  · exact ignores_quotations p hp
  · rw [List.mem_singleton.mp hp]
    exact ignores_shortText

theorem ignores_fillInto : Form.fillInto.Ignores lower := by
  simp [fillInto, ignores_quoted_or_plain, -ignores_anyOf]

theorem ignores_fillWith : Form.fillWith.Ignores lower := by
  simp [fillWith, ignores_quoted_or_plain, -ignores_anyOf]

theorem ignores_navigate : Form.navigate.Ignores lower := by simp [navigate]

theorem ignores_domain : Form.domain.Ignores lower := by
  have hpoint : ∀ c, (lower c == '.') = (c == '.') := mark_lower (by decide)
  have hdash : ∀ c, (lower c == '-') = (c == '-') := mark_lower (by decide)
  simp [domain, isLatin_lower, isLatinOrDigit_lower, isBlank_lower, hpoint, hdash]

theorem ignores_verify : Form.verify.Ignores lower := by simp [verify]

theorem ignores_shouldSee : Form.shouldSee.Ignores lower := by simp [shouldSee]

theorem ignores_shouldBe : Form.shouldBe.Ignores lower := by simp [shouldBe]

theorem ignores_trailingPresence : Form.trailingPresence.Ignores lower := by simp [trailingPresence]

theorem ignores_bareWait : Form.bareWait.Ignores lower := by simp [bareWait]

end Sentence.Form

end PlainSteps
