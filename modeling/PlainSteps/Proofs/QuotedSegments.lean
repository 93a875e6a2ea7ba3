import PlainSteps.Proofs.LetterCase
import PlainSteps.Proofs.QuotedOperand
import PlainSteps.Proofs.SubstitutedStore
import PlainSteps.Proofs.WellFormedActions

/-!
# Operands that hold quoted texts

The quoted segments of a text are read from left to right (`Sentence.Segments`): each goes from a mark to
the first mark that closes it, and the reading goes on behind it. What follows is about texts none of
whose segments is a locator.

Such a text is an operand as it stands when it is one span between marks. Any other stands for its first
segment, unless it is a locator itself or a locator begins in it, at its start or after a blank, and goes
on to its end. Whether that locator begins within a segment makes no difference.

* `Sentence.segments_iff` : the segments are the quotations that the form finds one after the other.
* `Sentence.isQuotation_iff` : which texts are one span.
* `Sentence.isLocator_of_span` : a span is a locator only if its first segment is, since the name of an
  engine holds no mark and no blank.
* `Sentence.beginsLocator_iff`, `Sentence.firstLocator_of_find?` : which texts are read as a locator up to
  the end, and that the first of them is found.
* `Sentence.operand_of_segments` : what a text with quoted segments stands for.
-/

namespace PlainSteps.Sentence

open Pattern Form Text

/-! ## Quoted texts -/

/-- A text between two marks that belong together. -/
inductive IsSpan : List Char → Prop
  | intro {opening closing : Char} {inner : List Char} (hmark : closingMark? opening = some closing) :
      IsSpan (opening :: (inner ++ [closing]))

/-- A text from a mark to the first mark that closes it. -/
inductive IsSegment : List Char → Prop
  | intro {opening closing : Char} {inner : List Char} (hmark : closingMark? opening = some closing)
      (hinner : closing ∉ inner) : IsSegment (opening :: (inner ++ [closing]))

/-- The quoted segments of a text, read from left to right. -/
inductive Segments : List Char → List (List Char) → Prop
  | done : Segments [] []
  | segment {q rest : List Char} {qs : List (List Char)} (hq : IsSegment q)
      (hrest : Segments rest qs) : Segments (q ++ rest) (q :: qs)
  /-- A character at which no segment begins is passed over. -/
  | other {c : Char} {rest : List Char} {qs : List (List Char)}
      (hother : ∀ q, IsSegment q → ¬q <+: c :: rest) (hrest : Segments rest qs) :
      Segments (c :: rest) qs

theorem IsSegment.eq_of_prefix {p q s : List Char} (hp : IsSegment p) (hq : IsSegment q)
    (hps : p <+: s) (hqs : q <+: s) : p = q := by
  obtain ⟨t, rfl⟩ := hps
  obtain ⟨u, hu⟩ := hqs
  obtain ⟨hmark, hinner⟩ := hp
  obtain ⟨hmark', hinner'⟩ := hq
  simp only [List.cons_append, List.append_assoc, List.cons.injEq, List.nil_append] at hu
  obtain ⟨rfl, hu⟩ := hu
  obtain rfl := Option.some.inj (hmark.symm.trans hmark')
  obtain ⟨rfl, -⟩ := split_at_first hinner hinner' hu.symm
  rfl

theorem isSegment_iff {opening closing : Char} {inner : List Char} :
    IsSegment (opening :: (inner ++ [closing])) ↔ closingMark? opening = some closing ∧ closing ∉ inner := by
  constructor
  · intro h
    generalize hs : opening :: (inner ++ [closing]) = s at h
    obtain ⟨hmark, hinner⟩ := h
    obtain ⟨rfl, hrest⟩ := List.cons.inj hs
    obtain ⟨rfl, hclosing⟩ := List.append_inj' hrest rfl
    obtain rfl := List.singleton_inj.mp hclosing
    exact ⟨hmark, hinner⟩
  · rintro ⟨hmark, hinner⟩
    exact .intro hmark hinner

theorem IsSegment.ne_nil {q : List Char} (hq : IsSegment q) : q ≠ [] := by
  obtain ⟨-, -⟩ := hq
  exact List.cons_ne_nil _ _

theorem Segments.head_eq {p q s : List Char} {qs : List (List Char)} (h : Segments s (q :: qs))
    (hp : IsSegment p) (hps : p <+: s) : q = p := by
  cases h with
  | segment hq _ => exact hq.eq_of_prefix hp (List.prefix_append _ _) hps
  | other hother _ => exact absurd hps (hother p hp)

theorem Segments.isSegment {s q : List Char} {qs : List (List Char)} (h : Segments s qs)
    (hq : q ∈ qs) : IsSegment q := by
  induction h with
  | done => cases hq
  | segment hp _ ih =>
    rcases List.mem_cons.mp hq with rfl | hq
    · exact hp
    · exact ih hq
  | other _ _ ih => exact ih hq

/-- A text has its segments in one way. -/
theorem Segments.eq {s : List Char} {ps qs : List (List Char)} (hp : Segments s ps)
    (hq : Segments s qs) : ps = qs := by
  induction hp generalizing qs with
  | done =>
    generalize hs : [] = s at hq
    cases hq with
    | done => rfl
    | segment hq _ => exact absurd (List.append_eq_nil_iff.mp hs.symm).1 hq.ne_nil
    | other _ _ => cases hs
  | @segment p rest ps hp hrest ih =>
    generalize hs : p ++ rest = s at hq
    have hprefix : p <+: s := hs ▸ List.prefix_append p rest
    cases hq with
    | done => exact absurd (List.append_eq_nil_iff.mp hs).1 hp.ne_nil
    | segment hq hrest' =>
      obtain rfl := hp.eq_of_prefix hq hprefix (List.prefix_append _ _)
      rw [List.append_cancel_left hs] at ih
      rw [ih hrest']
    | other hother _ => exact absurd hprefix (hother p hp)
  | @other c rest ps hother hrest ih =>
    generalize hs : c :: rest = s at hq
    cases hq with
    | done => cases hs
    | segment hq _ => exact absurd (hs ▸ List.prefix_append _ _) (hother _ hq)
    | other _ hrest' =>
      obtain ⟨-, rfl⟩ := List.cons.inj hs
      exact ih hrest'

theorem Segments.append {u t : List Char} {qs : List (List Char)} (ht : Segments t qs)
    (hu : ∀ u₁ u₂, u = u₁ ++ u₂ → u₂ ≠ [] → ∀ q, IsSegment q → ¬q <+: u₂ ++ t) :
    Segments (u ++ t) qs := by
  induction u with
  | nil => exact ht
  | cons c u ih =>
    refine .other (hu [] (c :: u) rfl (List.cons_ne_nil c u)) (ih fun u₁ u₂ hsplit hne => ?_)
    exact hu (c :: u₁) u₂ (by rw [hsplit, List.cons_append]) hne

/-! ## The form of a quotation -/

section

variable {a : Place} {parts : Parts Part} {r : Place × Parts Part}

theorem quotations_eq : Form.quotations = markPairs.map fun m => between m.1 m.2 := rfl

theorem mem_ways_quotation : r ∈ Form.quotation.ways a parts ↔ ∃ q, IsSegment q ∧
    a.after = q ++ r.1.after ∧ r.1.before = q.reverse ++ a.before ∧ r.2 = parts := by
  have hne : Form.quotations ≠ [] := List.cons_ne_nil _ _
  rw [Form.quotation, mem_ways_anyOf hne, quotations_eq]
  constructor
  · rintro ⟨p, hp, hr⟩
    obtain ⟨⟨opening, closing⟩, hm, rfl⟩ := List.mem_map.mp hp
    obtain ⟨inner, hinner, hafter, hbefore, hparts⟩ := mem_ways_between.mp hr
    refine ⟨_, .intro (closingMark?_eq_some_iff.mpr hm) hinner, ?_, ?_, hparts⟩
    · simpa using hafter
    · simpa using hbefore
  · rintro ⟨q, ⟨hmark, hinner⟩, hafter, hbefore, hparts⟩
    refine ⟨_, List.mem_map.mpr ⟨_, closingMark?_eq_some_iff.mp hmark, rfl⟩, ?_⟩
    refine mem_ways_between.mpr ⟨_, hinner, ?_, ?_, hparts⟩
    · simpa using hafter
    · simpa using hbefore

end

theorem matchAt?_quotation_eq_none {before s : List Char}
    (h : Form.quotation.matchAt? ⟨before, s⟩ = none) : ∀ q, IsSegment q → ¬q <+: s := by
  rintro q hq ⟨t, rfl⟩
  exact matchAt?_eq_none_iff.mp h (⟨q.reverse ++ before, t⟩, [])
    (mem_ways_quotation.mpr ⟨q, hq, rfl, rfl, rfl⟩)

theorem matchAt?_quotation {before s : List Char} {f : Found Part}
    (h : Form.quotation.matchAt? ⟨before, s⟩ = some f) :
    IsSegment f.text ∧ s = f.text ++ f.stop.after := by
  obtain ⟨r, hr, rfl⟩ := exists_way_of_matchAt? h
  obtain ⟨q, hq, hafter, hbefore, -⟩ := mem_ways_quotation.mp hr
  have htext : Found.text ⟨⟨before, s⟩, r.1, r.2⟩ = q := by
    have hplaces := Place.upTo_append before q r.1.after
    simp only at hafter hbefore
    rwa [← hafter, ← hbefore] at hplaces
  rw [htext]
  exact ⟨hq, hafter⟩

theorem segments_findAllFrom {n : Nat} {before s : List Char} (hn : s.length < n) :
    Segments s ((Form.quotation.findAllFrom n ⟨before, s⟩).map (·.text)) := by
  induction n generalizing before s with
  | zero => cases hn
  | succ n ih =>
    rw [findAllFrom]
    cases hfind : Form.quotation.findFrom before s with
    | none =>
      rw [← List.append_nil s]
      refine Segments.append .done fun u₁ u₂ hsplit _ => ?_
      rw [List.append_nil]
      exact matchAt?_quotation_eq_none (matchAt?_of_findFrom_eq_none hfind hsplit)
    | some f =>
      obtain ⟨u, t, rfl, hf, hfirst⟩ := first_of_findFrom hfind
      obtain ⟨hq, ht⟩ := matchAt?_quotation hf
      have hlt : f.stop.after.length < (u ++ t).length := by
        have hpos := List.length_pos_iff.mpr hq.ne_nil
        have hlength := congrArg List.length ht
        rw [List.length_append] at hlength ⊢
        omega
      have hrest := @ih f.stop.before f.stop.after (by omega)
      simp only [hlt, if_true, List.map_cons]
      refine Segments.append ?_ fun u₁ u₂ hsplit hne => ?_
      · have hsegments := Segments.segment hq hrest
        rwa [← ht] at hsegments
      · exact matchAt?_quotation_eq_none (hfirst u₁ u₂ hsplit hne)

/-- The segments of a text are the quotations that are found in it. -/
theorem segments_iff {s : List Char} {qs : List (List Char)} : Segments s qs ↔ quotations s = qs := by
  have hfound : Segments s (quotations s) := segments_findAllFrom (Nat.lt_succ_self _)
  exact ⟨hfound.eq, fun h => h ▸ hfound⟩

instance (s : List Char) (qs : List (List Char)) : Decidable (Segments s qs) :=
  decidable_of_iff _ segments_iff.symm

/-! ## Spans -/

theorem eq_concat_of_dropEndWhile {c : Char} {s : List Char} (hs : s ≠ [])
    (h : dropEndWhile (· != c) s = s) : ∃ inner, s = inner ++ [c] := by
  obtain ⟨inner, last, rfl⟩ := (List.eq_nil_or_concat s).resolve_left hs
  rw [List.concat_eq_append] at h ⊢
  by_cases hlast : last = c
  · exact ⟨inner, by rw [hlast]⟩
  · rw [dropEndWhile_append_of (p := (· != c)) inner (bne_iff_ne.mpr hlast)] at h
    have hlength := (prefix_dropEndWhile (· != c) inner).length_le
    rw [h, List.length_append] at hlength
    exact absurd hlength (by simp)

theorem isQuotation_iff {s : List Char} : isQuotation s = true ↔ IsSpan s := by
  constructor
  · intro h
    rw [isQuotation, beq_iff_eq] at h
    cases s with
    | nil => cases h
    | cons opening s =>
      cases hmark : closingMark? opening with
      | none => simp [quotedSpan?, hmark] at h
      | some closing =>
        simp only [quotedSpan?, hmark, throughLast?] at h
        split at h
        · cases h
        · rename_i hkept
          simp only [Option.map_some, Option.some.injEq, List.cons.injEq, true_and] at h
          rw [h, List.isEmpty_iff] at hkept
          obtain ⟨inner, rfl⟩ := eq_concat_of_dropEndWhile hkept h
          exact .intro hmark
  · rintro ⟨hmark⟩
    exact isQuotation_of_marks _ hmark

instance (s : List Char) : Decidable (IsSpan s) := decidable_of_iff _ isQuotation_iff

/-! ## Locators -/

/-- A text that begins with the name of an engine. -/
def IsLocator (s : List Char) : Prop :=
  ∃ engine ∈ locatorEngines, engine.toList <+: s.map lower

theorem isLocator_iff {s : List Char} : (locatorEngine? s).isSome = true ↔ IsLocator s := by
  constructor
  · intro h
    obtain ⟨engine, h⟩ := Option.isSome_iff_exists.mp h
    exact ⟨engine, locatorEngine?_eq_some h⟩
  · rintro ⟨engine, hengine, hstarts⟩
    rw [locatorEngine?, List.find?_isSome]
    exact ⟨engine, hengine, List.isPrefixOf_iff_prefix.mpr hstarts⟩

instance (s : List Char) : Decidable (IsLocator s) := decidable_of_iff _ isLocator_iff

theorem locatorEngine?_of_not {s : List Char} (h : ¬IsLocator s) : locatorEngine? s = none :=
  Option.not_isSome_iff_eq_none.mp fun hsome => h (isLocator_iff.mp hsome)

theorem isExplicit_ofChars_iff {s : List Char} :
    (Target.ofChars s).isExplicit = true ↔ IsLocator (unquoted s) := by
  rw [← isLocator_iff]
  cases h : locatorEngine? (unquoted s) with
  | none =>
    rw [Target.ofChars_of_none h]
    simp [Target.isExplicit]
  | some engine =>
    rw [Target.ofChars_of_engine h]
    simp [Target.isExplicit]

theorem not_mark_of_letter {c : Char} (h : isAsciiLetter (foldCase c) = true) :
    isQuoteMark c = false := by
  cases hmark : isQuoteMark c with
  | false => rfl
  | true =>
    simp only [isQuoteMark, Bool.or_eq_true, beq_iff_eq] at hmark
    rcases hmark with ((((rfl | rfl) | rfl) | rfl) | rfl) | rfl <;> cases h

theorem engine_char {engine : String} (hengine : engine ∈ locatorEngines) {name : List Char}
    (hname : name.map foldCase = engine.toList) {c : Char} (hc : c ∈ name) :
    isBlank c = false ∧ isQuoteMark c = false := by
  have hall : ∀ engine ∈ locatorEngines, engine.toList.all (fun c => isAsciiLetter c || c == '=') := by
    decide
  have hfold := List.all_eq_true.mp (hall engine hengine) _ (hname ▸ List.mem_map_of_mem hc)
  rw [Bool.or_eq_true, beq_iff_eq] at hfold
  rcases hfold with hletter | hsign
  · exact ⟨not_blank_of_foldCase hletter, not_mark_of_letter hletter⟩
  · obtain rfl : c = '=' := sign_of_foldCase (by decide) rfl hsign
    exact ⟨rfl, rfl⟩

theorem foldCase_of_lower {engine : String} (hengine : engine ∈ locatorEngines) {name : List Char}
    (hname : name.map lower = engine.toList) : name.map foldCase = engine.toList := by
  have hall : ∀ engine ∈ locatorEngines, engine.toList.map foldCase = engine.toList := by decide
  rw [← hall engine hengine, ← hname, List.map_map]
  exact List.map_congr_left fun c _ => (foldCase_lower c).symm

theorem isLocator_trimmed_iff {s : List Char} : IsLocator (trimmed s) ↔
    ∃ b name rest, s = b ++ (name ++ rest) ∧ (∀ c ∈ b, isBlank c = true) ∧
      ∃ engine ∈ locatorEngines, name.map lower = engine.toList := by
  constructor
  · rintro ⟨engine, hengine, rest, hrest⟩
    obtain ⟨tail, htail⟩ := prefix_dropEndWhile isBlank (s.dropWhile isBlank)
    obtain ⟨name, rest', htrimmed, hname, -⟩ := List.map_eq_append_iff.mp hrest.symm
    refine ⟨s.takeWhile isBlank, name, rest' ++ tail, ?_, fun c hc => List.mem_takeWhile_imp hc, engine,
      hengine, hname⟩
    rw [← List.append_assoc name, ← htrimmed, trimmed, htail, List.takeWhile_append_dropWhile]
  · rintro ⟨b, name, rest, rfl, hb, engine, hengine, hname⟩
    have hchar : ∀ c ∈ name, isBlank c = false := fun c hc =>
      (engine_char hengine (foldCase_of_lower hengine hname) hc).1
    have hne : name ≠ [] := by
      rintro rfl
      exact (locatorEngines_spec engine hengine).1 hname.symm
    have hhead : ∀ c ∈ (name ++ rest).head?, isBlank c = false := by
      intro c hc
      rw [List.head?_append, List.head?_eq_some_head hne, Option.some_or] at hc
      exact hchar c (Option.some.inj hc ▸ List.head_mem hne)
    rw [trimmed, List.dropWhile_append_of_pos hb, dropWhile_of_head hhead]
    refine ⟨engine, hengine, ?_⟩
    rw [← hname]
    exact (prefix_dropEndWhile_append (fun c hc => hchar c (List.mem_of_getLast? hc)) rest).map lower

theorem isLocator_before {mark : Char} (hmark : isQuoteMark mark = true) {s t : List Char}
    (h : IsLocator (trimmed (s ++ mark :: t))) : IsLocator (trimmed s) := by
  obtain ⟨b, name, rest, hsplit, hb, engine, hengine, hname⟩ := isLocator_trimmed_iff.mp h
  have hnot : mark ∉ b ++ name := by
    intro hmem
    rcases List.mem_append.mp hmem with hmem | hmem
    · have hblank := hb mark hmem
      rw [not_blank_of_mark hmark] at hblank
      cases hblank
    · have hchar := (engine_char hengine (foldCase_of_lower hengine hname) hmem).2
      rw [hmark] at hchar
      cases hchar
  have hin : ∃ w, s = (b ++ name) ++ w := by
    rw [← List.append_assoc] at hsplit
    rcases List.append_eq_append_iff.mp hsplit with ⟨w, hw, hrest⟩ | ⟨w, hw, -⟩
    · cases w with
      | nil => exact ⟨[], by simpa using hw.symm⟩
      | cons c w =>
        obtain ⟨rfl, -⟩ := List.cons.inj hrest
        exact absurd (hw ▸ List.mem_append_right s List.mem_cons_self) hnot
    · exact ⟨w, hw⟩
  obtain ⟨w, rfl⟩ := hin
  exact isLocator_trimmed_iff.mpr ⟨b, name, w, List.append_assoc b name w, hb, engine, hengine, hname⟩

theorem isLocator_of_span {s q : List Char} {qs : List (List Char)} (hspan : IsSpan s)
    (hsegments : Segments s (q :: qs)) (h : IsLocator (unquoted s)) : IsLocator (unquoted q) := by
  obtain @⟨opening, closing, inner, hmark⟩ := hspan
  obtain ⟨hopening, hclosing⟩ := marks_of_closingMark hmark
  -- the first segment ends at the first closing mark
  have hmem : closing ∈ inner ++ [closing] := by simp
  obtain ⟨u, v, hsplit, hu⟩ := List.eq_append_cons_of_mem hmem
  have hprefix : opening :: (u ++ [closing]) <+: opening :: (inner ++ [closing]) := by
    rw [hsplit]
    exact ⟨v, by simp⟩
  rw [hsegments.head_eq (.intro hmark hu) hprefix, unquoted_of_marks hopening hclosing]
  rw [unquoted_of_marks hopening hclosing] at h
  rcases List.eq_nil_or_concat v with rfl | ⟨v, last, rfl⟩
  · rwa [← List.append_cancel_right hsplit]
  · have hinner : inner = u ++ closing :: v := by
      have hends : inner ++ [closing] = (u ++ closing :: v) ++ [last] := by simpa using hsplit
      exact (List.append_inj' hends rfl).1
    rw [hinner] at h
    exact isLocator_before hclosing h

/-! ## Locators within a text -/

/-- A text on one line that begins with the name of an engine, in any form of its letters, and goes on
with a character that is not blank. -/
inductive BeginsLocator : List Char → Prop
  | intro {engine : String} {name rest : List Char} {c : Char} (hengine : engine ∈ locatorEngines)
      (hname : name.map foldCase = engine.toList) (hc : isBlank c = false) (hline : '\n' ∉ rest) :
      BeginsLocator (name ++ c :: rest)

/-- A locator begins at the start of the text or after a blank. -/
structure LocatorAfter (before rest : List Char) : Prop where
  start : ∀ c ∈ before.getLast?, isBlank c = true
  begins : BeginsLocator rest

/-- The first locator within a text. -/
structure FirstLocator (before rest : List Char) : Prop extends LocatorAfter before rest where
  first : ∀ u v, before = u ++ v → v ≠ [] → ¬LocatorAfter u (v ++ rest)

/-- A locator begins within the text. -/
def HoldsLocator (s : List Char) : Prop :=
  ∃ before rest, s = before ++ rest ∧ LocatorAfter before rest

theorem BeginsLocator.head {s : List Char} (h : BeginsLocator s) :
    ∃ c t, s = c :: t ∧ isBlank c = false ∧ isQuoteMark c = false := by
  obtain @⟨engine, name, rest, c, hengine, hname, -, -⟩ := h
  cases name with
  | nil => exact absurd hname.symm (locatorEngines_spec engine hengine).1
  | cons d name => exact ⟨d, _, rfl, engine_char hengine hname List.mem_cons_self⟩

/-- The parts of a locator. -/
def locatorForms : List Form :=
  [oneOf ["css", "xpath", "text"], word "=", one (fun c => !isBlank c), many onLine]

theorem trailingLocator_eq : Form.trailingLocator =
    chain [either textStart (one isBlank), part .locator (chain locatorForms), textEnd] := rfl

theorem locatorEngines_eq : locatorEngines = ["css", "xpath", "text"].map (· ++ "=") := by decide

theorem onLine_iff {s : List Char} : (∀ c ∈ s, onLine c = true) ↔ '\n' ∉ s := by
  simp only [onLine, bne_iff_ne]
  exact ⟨fun h hc => h _ hc rfl, fun h c hc => fun he => h (he ▸ hc)⟩

section

variable {before s : List Char} {parts : Parts Part}

theorem beginsLocator_iff :
    (∃ r ∈ (chain locatorForms).ways ⟨before, s⟩ parts, r.1.after = []) ↔ BeginsLocator s := by
  constructor
  · rintro ⟨r, hr, hend⟩
    obtain ⟨m₁, hengine, hr⟩ := mem_ways_chain_cons.mp hr
    obtain ⟨m₂, hequals, hr⟩ := mem_ways_chain_cons.mp hr
    obtain ⟨m₃, hone, hmany⟩ := mem_ways_chain_cons.mp hr
    obtain ⟨p, hp, hword⟩ := (mem_ways_anyOf (by simp)).mp hengine
    obtain ⟨w, hw, rfl⟩ := List.mem_map.mp hp
    obtain ⟨t, ht, -, hfold⟩ := mem_ways_letters hword
    obtain ⟨u, hu, -, hsign⟩ := mem_ways_letters hequals
    obtain ⟨c, v, hv, hc, rfl⟩ := mem_ways_one.mp hone
    obtain ⟨rest, hrest, -, hline, -⟩ := mem_ways_many.mp hmany
    have hname : (t ++ u).map foldCase = (w ++ "=").toList := by
      rw [List.map_append, hfold, hsign, String.toList_append]
    have hmem : w ++ "=" ∈ locatorEngines := locatorEngines_eq ▸ List.mem_map_of_mem hw
    simp only at ht hrest
    rw [hend, List.append_nil] at hrest
    rw [ht, hu, hv, hrest, ← List.append_assoc]
    exact .intro hmem hname (by simpa using hc) (onLine_iff.mp hline)
  · rintro @⟨engine, name, rest, c, hengine, hname, hc, hline⟩
    rw [locatorEngines_eq] at hengine
    obtain ⟨w, hw, rfl⟩ := List.mem_map.mp hengine
    rw [String.toList_append] at hname
    obtain ⟨t, u, rfl, ht, hu⟩ := List.map_eq_append_iff.mp hname
    have hreads : (chain locatorForms).Spells (t ++ (u ++ ([c] ++ rest))) := by
      refine spells_chain_cons (spells_anyOf (List.mem_map_of_mem hw) (spells_word ht)) ?_
      refine spells_chain_cons (spells_word hu) (spells_chain_cons ?_ ?_)
      · exact fun _ s _ => mem_ways_one.mpr ⟨c, s, rfl, by simp [hc], rfl⟩
      · exact spells_many (onLine_iff.mpr hline)
    have hmem := hreads before [] parts
    rw [List.append_nil] at hmem
    exact ⟨_, by simpa using hmem, rfl⟩

end

/-- What is read before a locator: nothing where the text starts, and else a blank. -/
inductive LeadsLocator : List Char → List Char → Prop
  | start : LeadsLocator [] []
  | blank {before : List Char} {c : Char} (hc : isBlank c = true) : LeadsLocator before [c]

theorem LocatorAfter.exists_lead {before rest : List Char} (h : LocatorAfter before rest) :
    ∃ u lead, before = u ++ lead ∧ LeadsLocator u lead := by
  rcases List.eq_nil_or_concat before with rfl | ⟨u, c, rfl⟩
  · exact ⟨[], [], rfl, .start⟩
  · rw [List.concat_eq_append]
    exact ⟨u, [c], rfl, .blank (h.start c (by simp))⟩

theorem part_of_matchAt? {u s : List Char} {f : Found Part}
    (h : Form.trailingLocator.matchAt? ⟨u.reverse, s⟩ = some f) :
    ∃ lead, LeadsLocator u lead ∧ s = lead ++ f.part .locator ∧ BeginsLocator (f.part .locator) := by
  obtain ⟨r, hr, rfl⟩ := exists_way_of_matchAt? h
  obtain ⟨m, hlead, hr⟩ := mem_ways_chain_cons.mp (trailingLocator_eq ▸ hr)
  obtain ⟨m', hpart, hend⟩ := mem_ways_chain_cons.mp hr
  obtain ⟨n, hlocator, rfl⟩ := mem_ways_part.mp hpart
  obtain ⟨hafter, rfl⟩ := mem_ways_textEnd.mp hend
  rw [Found.part_self, upTo_of_end hlocator hafter]
  have hbegins : BeginsLocator m.1.after := beginsLocator_iff.mp ⟨n, hlocator, hafter⟩
  rcases mem_ways_either.mp hlead with hstart | hblank
  · obtain ⟨hbefore, rfl⟩ := mem_ways_textStart.mp hstart
    obtain rfl := List.reverse_eq_nil_iff.mp hbefore
    exact ⟨[], .start, rfl, hbegins⟩
  · obtain ⟨c, t, rfl, hc, rfl⟩ := mem_ways_one.mp hblank
    exact ⟨[c], .blank hc, rfl, hbegins⟩

theorem not_begins_of_matchAt? {u lead rest : List Char}
    (h : Form.trailingLocator.matchAt? ⟨u.reverse, lead ++ rest⟩ = none) (hlead : LeadsLocator u lead) :
    ¬BeginsLocator rest := by
  intro hbegins
  have hread : ∃ b, (⟨b, rest⟩, []) ∈
      (either textStart (one isBlank) : Form).ways ⟨u.reverse, lead ++ rest⟩ [] := by
    cases hlead with
    | start => exact ⟨[], mem_ways_either.mpr (.inl (mem_ways_textStart.mpr ⟨rfl, rfl⟩))⟩
    | blank hc => exact ⟨_, mem_ways_either.mpr (.inr (mem_ways_one.mpr ⟨_, _, rfl, hc, rfl⟩))⟩
  obtain ⟨b, hread⟩ := hread
  obtain ⟨n, hn, hend⟩ : ∃ n ∈ (chain locatorForms).ways ⟨b, rest⟩ [], n.1.after = [] :=
    beginsLocator_iff.mpr hbegins
  have hpart : (n.1, (Part.locator, ⟨b, rest⟩, n.1) :: n.2) ∈
      (chain [part .locator (chain locatorForms), textEnd]).ways ⟨b, rest⟩ [] :=
    mem_ways_chain_cons.mpr ⟨_, mem_ways_part.mpr ⟨n, hn, rfl⟩, mem_ways_textEnd.mpr ⟨hend, rfl⟩⟩
  exact matchAt?_eq_none_iff.mp h _ (trailingLocator_eq ▸ mem_ways_chain_cons.mpr ⟨_, hread, hpart⟩)

theorem firstLocator_of_find? {s : List Char} {f : Found Part}
    (h : Form.trailingLocator.find? s = some f) :
    ∃ before, s = before ++ f.part .locator ∧ FirstLocator before (f.part .locator) := by
  obtain ⟨u, t, rfl, hf, hfirst⟩ := first_of_findFrom h
  rw [List.append_nil] at hf
  obtain ⟨lead, hlead, ht, hbegins⟩ := part_of_matchAt? hf
  refine ⟨u ++ lead, by rw [List.append_assoc, ← ht], ⟨?_, hbegins⟩, ?_⟩
  · cases hlead with
    | start => simp
    | blank hc =>
      intro d hd
      rw [List.getLast?_concat] at hd
      exact Option.some.inj hd ▸ hc
  · intro v w hsplit hw hafter
    obtain ⟨u', lead', rfl, hlead'⟩ := hafter.exists_lead
    -- a locator does not begin with the blank before another
    have hlead : ∀ v, lead ≠ v ++ w := by
      rintro v hv
      cases hlead with
      | start => exact hw (List.append_eq_nil_iff.mp hv.symm).2
      | blank hc =>
        obtain ⟨-, rfl⟩ := (List.singleton_eq_append_iff.mp hv).resolve_right fun h => hw h.2
        obtain ⟨d, tail, hd, hblank, -⟩ := hafter.begins.head
        obtain ⟨rfl, -⟩ := List.cons.inj hd
        rw [hc] at hblank
        cases hblank
    rw [List.append_assoc] at hsplit
    rcases List.append_eq_append_iff.mp hsplit with ⟨x, -, hx⟩ | ⟨x, hx, hwhole⟩
    · exact hlead (x ++ lead') (by rw [hx, List.append_assoc])
    · by_cases hne : x = []
      · exact hlead lead' (by rw [hwhole, hne, List.nil_append])
      · have hnone := hfirst u' x hx hne
        rw [List.append_nil, ht, ← List.append_assoc, ← hwhole, List.append_assoc] at hnone
        exact not_begins_of_matchAt? hnone hlead' hafter.begins

theorem holdsLocator_iff {s : List Char} :
    (Form.trailingLocator.find? s).isSome = true ↔ HoldsLocator s := by
  constructor
  · intro h
    obtain ⟨f, hf⟩ := Option.isSome_iff_exists.mp h
    obtain ⟨before, hsplit, hfirst⟩ := firstLocator_of_find? hf
    exact ⟨before, _, hsplit, hfirst.toLocatorAfter⟩
  · rintro ⟨before, rest, rfl, hafter⟩
    refine Option.isSome_iff_ne_none.mpr fun hnone => ?_
    obtain ⟨u, lead, rfl, hlead⟩ := hafter.exists_lead
    have hhere := matchAt?_of_findFrom_eq_none hnone (List.append_assoc u lead rest)
    rw [List.append_nil] at hhere
    exact not_begins_of_matchAt? hhere hlead hafter.begins

instance (s : List Char) : Decidable (HoldsLocator s) := decidable_of_iff _ holdsLocator_iff

/-! ## Operands -/

theorem IsSegment.exists_mark {q : List Char} (hq : IsSegment q) :
    ∃ c t, q = c :: t ∧ isQuoteMark c = true ∧ trimmed q = q := by
  obtain ⟨hmark, -⟩ := hq
  obtain ⟨hopening, hclosing⟩ := marks_of_closingMark hmark
  exact ⟨_, _, rfl, hopening, trimmed_of_marks hopening hclosing _⟩

theorem ofChars_ne_segment {rest q : List Char} (hrest : BeginsLocator rest) (hq : IsSegment q) :
    Target.ofChars rest ≠ .implied (String.ofList q) := by
  intro heq
  obtain ⟨c, t, rfl, hblank, hmark⟩ := hrest.head
  obtain ⟨d, u, rfl, hopening, -⟩ := hq.exists_mark
  cases hengine : locatorEngine? (unquoted (c :: t)) with
  | some engine =>
    rw [Target.ofChars_of_engine hengine] at heq
    cases heq
  | none =>
    rw [Target.ofChars_of_none hengine, Target.implied.injEq, String.ofList_inj] at heq
    have hfirst : [c] <+: trimmed (c :: t) := by
      rw [trimmed, dropWhile_of_head (by simpa using hblank)]
      exact prefix_dropEndWhile_append (s := [c]) (by simpa using hblank) t
    obtain ⟨v, hv⟩ := heq ▸ hfirst
    obtain ⟨rfl, -⟩ := List.cons.inj hv
    rw [hmark] at hopening
    cases hopening

section

variable {raw q : List Char} {qs : List (List Char)} (hsegments : Segments (trimmed raw) (q :: qs))
  (hplain : ∀ p ∈ q :: qs, ¬IsLocator (unquoted p))

include hsegments hplain

theorem operand_span (hspan : IsSpan (trimmed raw)) :
    operand raw = .implied (String.ofList (trimmed raw)) := by
  have hnone : ¬IsLocator (unquoted (trimmed raw)) := fun h =>
    hplain q List.mem_cons_self (isLocator_of_span hspan hsegments h)
  have hwhole : ((Target.ofChars (trimmed raw)).isExplicit || isQuotation (trimmed raw)) = true := by
    rw [isQuotation_iff.mpr hspan, Bool.or_true]
  rw [operand, if_pos hwhole, Target.ofChars_of_none (locatorEngine?_of_not hnone), trimmed_trimmed]

/-- What is no span and no locator is searched for a locator, and else stands for its first segment. -/
theorem operand_eq (hspan : ¬IsSpan (trimmed raw)) (hlocator : ¬IsLocator (unquoted (trimmed raw))) :
    operand raw = match Form.trailingLocator.find? (trimmed raw) with
      | some f => Target.ofChars (f.part .locator)
      | none => .implied (String.ofList q) := by
  have hwhole : ¬((Target.ofChars (trimmed raw)).isExplicit || isQuotation (trimmed raw)) = true := by
    rw [Bool.or_eq_true, isExplicit_ofChars_iff, isQuotation_iff]
    exact not_or.mpr ⟨hlocator, hspan⟩
  have hquoted : ((quotations (trimmed raw)).map Target.ofChars).find? Target.isExplicit = none := by
    rw [segments_iff.mp hsegments, List.find?_eq_none]
    intro target htarget
    obtain ⟨p, hp, rfl⟩ := List.mem_map.mp htarget
    rw [isExplicit_ofChars_iff]
    exact hplain p hp
  have hfirst : ((quotations (trimmed raw)).map Target.ofChars).head? =
      some (.implied (String.ofList q)) := by
    obtain ⟨-, -, -, -, htrimmed⟩ := (hsegments.isSegment List.mem_cons_self).exists_mark
    rw [segments_iff.mp hsegments, List.map_cons, List.head?_cons,
      Target.ofChars_of_none (locatorEngine?_of_not (hplain q List.mem_cons_self)), htrimmed]
  rw [operand, if_neg hwhole]
  cases Form.trailingLocator.find? (trimmed raw) <;> simp only [hquoted, hfirst]

end

/-- A text with quoted segments, none of them a locator, stands for itself when it is one span. Otherwise
it stands for its first segment, unless it is a locator itself or one begins in it. It stands for the
first that does, wherever that begins. -/
theorem operand_of_segments {raw q : List Char} {qs : List (List Char)}
    (hsegments : Segments (trimmed raw) (q :: qs)) (hplain : ∀ p ∈ q :: qs, ¬IsLocator (unquoted p)) :
    (IsSpan (trimmed raw) → operand raw = .implied (String.ofList (trimmed raw))) ∧
    (¬IsSpan (trimmed raw) →
      (operand raw = .implied (String.ofList q) ↔
        ¬IsLocator (unquoted (trimmed raw)) ∧ ¬HoldsLocator (trimmed raw)) ∧
      (¬IsLocator (unquoted (trimmed raw)) → HoldsLocator (trimmed raw) →
        ∃ before rest, trimmed raw = before ++ rest ∧ FirstLocator before rest ∧
          operand raw = Target.ofChars rest)) := by
  refine ⟨operand_span hsegments hplain, fun hspan => ?_⟩
  have hheld : ¬IsLocator (unquoted (trimmed raw)) → HoldsLocator (trimmed raw) →
      ∃ before rest, trimmed raw = before ++ rest ∧ FirstLocator before rest ∧
        operand raw = Target.ofChars rest := by
    intro hlocator hholds
    obtain ⟨f, hf⟩ := Option.isSome_iff_exists.mp (holdsLocator_iff.mpr hholds)
    obtain ⟨before, hsplit, hfirst⟩ := firstLocator_of_find? hf
    exact ⟨before, _, hsplit, hfirst, by rw [operand_eq hsegments hplain hspan hlocator, hf]⟩
  refine ⟨⟨fun h => ?_, ?_⟩, hheld⟩
  · have hlocator : ¬IsLocator (unquoted (trimmed raw)) := by
      intro hlocator
      have hexplicit := isExplicit_ofChars_iff.mpr hlocator
      rw [operand, if_pos (Bool.or_eq_true_iff.mpr (.inl hexplicit))] at h
      rw [h] at hexplicit
      cases hexplicit
    refine ⟨hlocator, fun hholds => ?_⟩
    obtain ⟨before, rest, -, hfirst, hrest⟩ := hheld hlocator hholds
    exact ofChars_ne_segment hfirst.begins (hsegments.isSegment List.mem_cons_self) (hrest ▸ h)
  · rintro ⟨hlocator, hholds⟩
    have hnone : Form.trailingLocator.find? (trimmed raw) = none :=
      Option.not_isSome_iff_eq_none.mp fun hsome => hholds (holdsLocator_iff.mp hsome)
    rw [operand_eq hsegments hplain hspan hlocator, hnone]

/-- A locator within the quotation marks is taken for the operand. -/
theorem operand_of_segments_field :
    let button := "the \"Save all\" button".toList
    let field := "the \"use css=.x here\" field".toList
    operand button = .implied "\"Save all\"" ∧
      Segments field ["\"use css=.x here\"".toList] ∧
      operand field ≠ .implied "\"use css=.x here\"" := by
  intro button field
  have hbutton : Segments (trimmed button) ["\"Save all\"".toList] := by decide +kernel
  have hfield : Segments (trimmed field) ["\"use css=.x here\"".toList] := by decide +kernel
  have hsame : trimmed field = field := by decide +kernel
  refine ⟨?_, hsame ▸ hfield, fun h => ?_⟩
  · obtain ⟨-, hwords⟩ := operand_of_segments hbutton (by decide +kernel)
    exact (hwords (by decide +kernel)).1.mpr (by decide +kernel)
  · obtain ⟨-, hwords⟩ := operand_of_segments hfield (by decide +kernel)
    exact ((hwords (by decide +kernel)).1.mp h).2 (by decide +kernel)

end PlainSteps.Sentence
