import PlainSteps.Proofs.LetterCase
import PlainSteps.Proofs.WellFormedActions

/-!
# Operands in capitals

The target that a text in capitals names is the target that the text names, in capitals
(`Sentence.operand_upper`); only the name of a locator's engine stays as it is.

An operand is put together from functions on texts (trimming, words, quotation marks) and from what forms
find. A function on texts commutes with every change of characters that its tests do not notice
(`Text.trimmed_map`, `unquoted_map`), and so does a form (`Pattern.find?_map`). That a test does not notice
capitals follows from its not noticing lower case (`Text.test_upper`, `Pattern.Ignores.upper`), because a
capital has the lower case of its letter. The two places where a text is compared with words of the program
put it in lower case first (`locatorEngine?_upper`).
-/

namespace PlainSteps

open Text

/-! ## Characters -/

namespace Text

theorem upper_eq_self {c : Char} (h : isAsciiLetter c = false) : upper c = c := by
  unfold upper
  refine if_neg fun hletter => ?_
  simp [isAsciiLetter, hletter.1, hletter.2] at h

theorem lower_upper (c : Char) : lower (upper c) = lower c := by
  by_cases hc : isAsciiLetter c = true
  · exact forall_ascii (P := fun c => lower (upper c) = lower c) (by decide +kernel) (ascii_of_letter hc)
  · rw [upper_eq_self (by simpa using hc)]

theorem map_lower_upper (s : List Char) : (s.map upper).map lower = s.map lower := by
  rw [List.map_map]
  exact List.map_congr_left fun c _ => lower_upper c

theorem test_upper {α : Type} {t : Char → α} (h : ∀ c, t (lower c) = t c) (c : Char) :
    t (upper c) = t c := by
  rw [← h (upper c), lower_upper, h]

theorem mark_upper {mark : Char} (h : isAsciiLetter mark = false) (c : Char) :
    (upper c == mark) = (c == mark) :=
  test_upper (t := (· == mark)) (Sentence.Form.mark_lower h) c

theorem not_mark_upper {mark : Char} (h : isAsciiLetter mark = false) (c : Char) :
    (upper c != mark) = (c != mark) := by
  rw [bne, mark_upper h, bne]

theorem isBlank_upper : ∀ c, isBlank (upper c) = isBlank c :=
  test_upper Sentence.Form.isBlank_lower

theorem marks_upper (c : Char) : isQuoteMark (upper c) = isQuoteMark c ∧
    Sentence.isFinalMark (upper c) = Sentence.isFinalMark c ∧
    Sentence.isBrace (upper c) = Sentence.isBrace c ∧
    Sentence.closingMark? (upper c) = Sentence.closingMark? c ∧ startsName (upper c) = startsName c ∧
    continuesName (upper c) = continuesName c ∧ isAsciiDigit (upper c) = isAsciiDigit c := by
  let t : Char → Option Char × List Bool := fun c => (Sentence.closingMark? c,
    [isQuoteMark c, Sentence.isFinalMark c, Sentence.isBrace c, startsName c, continuesName c,
      isAsciiDigit c])
  have h : t (upper c) = t c := test_upper (test_lower (by decide +kernel)) c
  simp only [t, Prod.mk.injEq, List.cons.injEq] at h
  obtain ⟨hclosing, hquote, hfinal, hbrace, hstarts, hcontinues, hdigit, -⟩ := h
  exact ⟨hquote, hfinal, hbrace, hclosing, hstarts, hcontinues, hdigit⟩

/-! ## Texts with other characters -/

section

variable {f : Char → Char} {p : Char → Bool}

theorem dropWhile_map (h : ∀ c, p (f c) = p c) (s : List Char) :
    (s.map f).dropWhile p = (s.dropWhile p).map f := by
  rw [List.dropWhile_map, show p ∘ f = p from funext h]

theorem takeWhile_map (h : ∀ c, p (f c) = p c) (s : List Char) :
    (s.map f).takeWhile p = (s.takeWhile p).map f := by
  rw [List.takeWhile_map, show p ∘ f = p from funext h]

theorem dropEndWhile_map (h : ∀ c, p (f c) = p c) (s : List Char) :
    dropEndWhile p (s.map f) = (dropEndWhile p s).map f := by
  rw [dropEndWhile, ← List.map_reverse, dropWhile_map h, ← List.map_reverse, dropEndWhile]

theorem trimmed_map (h : ∀ c, isBlank (f c) = isBlank c) (s : List Char) :
    trimmed (s.map f) = (trimmed s).map f := by
  rw [trimmed, dropWhile_map h, dropEndWhile_map h, trimmed]

theorem piecesBy_map (h : ∀ c, p (f c) = p c) (s : List Char) :
    piecesBy p (s.map f) = (piecesBy p s).map (·.map f) := by
  induction s with
  | nil => rfl
  | cons c s ih =>
    rw [List.map_cons, piecesBy, piecesBy, h, ih]
    by_cases hc : p c = true
    · rw [if_pos hc, if_pos hc]
      rfl
    · rw [if_neg hc, if_neg hc]
      cases piecesBy p s <;> rfl

theorem words_map (h : ∀ c, isBlank (f c) = isBlank c) (s : List Char) :
    words (s.map f) = (words s).map (·.map f) := by
  rw [words, piecesBy_map h, List.filter_map, words]
  congr 2
  funext w
  cases w <;> rfl

end

end Text

section

variable {f : Char → Char}

theorem betweenMarks?_map (h : ∀ c, isQuoteMark (f c) = isQuoteMark c) (s : List Char) :
    betweenMarks? (s.map f) = (betweenMarks? s).map (·.map f) := by
  cases s with
  | nil => rfl
  | cons c s =>
    simp only [List.map_cons, betweenMarks?, List.getLast?_map]
    cases s.getLast? with
    | none => rfl
    | some d =>
      simp only [Option.map_some, h, ← List.map_dropLast]
      split <;> rfl

theorem unquoted_map (hblank : ∀ c, isBlank (f c) = isBlank c)
    (hquote : ∀ c, isQuoteMark (f c) = isQuoteMark c) (s : List Char) :
    unquoted (s.map f) = (unquoted s).map f := by
  rw [unquoted, trimmed_map hblank, betweenMarks?_map hquote, unquoted]
  cases betweenMarks? (trimmed s) with
  | none => rfl
  | some inner => exact trimmed_map hblank inner

end

theorem trimmed_upper (s : List Char) : trimmed (s.map upper) = (trimmed s).map upper :=
  trimmed_map isBlank_upper s

theorem words_upper (s : List Char) : words (s.map upper) = (words s).map (·.map upper) :=
  words_map isBlank_upper s

theorem unquoted_upper (s : List Char) : unquoted (s.map upper) = (unquoted s).map upper :=
  unquoted_map isBlank_upper (fun c => (marks_upper c).1) s

theorem isName_upper (s : List Char) : isName (s.map upper) = isName s := by
  cases s with
  | nil => rfl
  | cons c s =>
    rw [List.map_cons, isName, isName, (marks_upper c).2.2.2.2.1, List.all_map]
    congr 2
    exact funext fun d => (marks_upper d).2.2.2.2.2.1

/-! ## Forms -/

theorem Pattern.Ignores.upper {κ : Type} {p : Pattern κ} (h : p.Ignores lower) : p.Ignores upper := by
  induction p with
  | nothing | textStart | textEnd => trivial
  | one accepts | many accepts | few accepts | edge accepts => exact test_upper h
  | both p q ihp ihq | either p q ihp ihq => exact ⟨ihp h.1, ihq h.2⟩
  | part label p ih => exact ih h

/-! ## Targets -/

/-- The text with all letters in capitals but those of its first characters. -/
def capitalsAfter (n : Nat) (s : String) : String :=
  String.ofList (s.toList.take n ++ (s.toList.drop n).map upper)

/-- The text with all letters in capitals. -/
def capitals (s : String) : String :=
  capitalsAfter 0 s

/-- The target with its words in capitals. The name of a locator's engine stays as it is. -/
def Target.inCapitals : Target → Target
  | explicit locator =>
    explicit (capitalsAfter ((locatorEngine? locator.toList).elim 0 String.length) locator)
  | implied hint => implied (capitals hint)

theorem capitals_ofList (s : List Char) :
    capitals (String.ofList s) = String.ofList (s.map upper) := by
  rw [capitals, capitalsAfter, String.toList_ofList]
  rfl

theorem toList_capitals (s : String) : (capitals s).toList = s.toList.map upper := by
  rw [capitals, capitalsAfter, String.toList_ofList]
  rfl

theorem lowered_upper (s : List Char) :
    lowered (String.ofList (s.map upper)) = lowered (String.ofList s) := by
  rw [lowered, lowered, String.toList_ofList, String.toList_ofList, map_lower_upper]

theorem locatorEngine?_upper (s : List Char) : locatorEngine? (s.map upper) = locatorEngine? s := by
  rw [locatorEngine?, map_lower_upper, locatorEngine?]

theorem capitalsAfter_append (start : String) (s : List Char) :
    capitalsAfter start.length (start ++ String.ofList s) = start ++ String.ofList (s.map upper) := by
  rw [capitalsAfter, String.toList_append, String.toList_ofList, ← String.length_toList, List.take_left,
    List.drop_left, String.ofList_append, String.ofList_toList]

namespace Target

theorem ofChars_upper (raw : List Char) : ofChars (raw.map upper) = (ofChars raw).inCapitals := by
  have hsame : locatorEngine? (unquoted (raw.map upper)) = locatorEngine? (unquoted raw) := by
    rw [unquoted_upper, locatorEngine?_upper]
  cases hengine : locatorEngine? (unquoted raw) with
  | none =>
    rw [ofChars_of_none (hsame.trans hengine), ofChars_of_none hengine, inCapitals, capitals_ofList,
      trimmed_upper]
  | some engine =>
    obtain ⟨hmem, hstarts⟩ := locatorEngine?_eq_some hengine
    -- the engine is read again at the start of the locator
    have hagain : locatorEngine? (locatorOf engine (unquoted raw)) = some engine := by
      rw [← hengine, locatorEngine?, lower_locatorOf hmem hstarts, locatorEngine?]
    rw [ofChars_of_engine (hsame.trans hengine), ofChars_of_engine hengine, inCapitals,
      String.toList_ofList, hagain, Option.elim_some, locatorOf, locatorOf, String.ofList_append,
      String.ofList_append, String.ofList_toList, capitalsAfter_append, unquoted_upper, List.map_drop]

theorem isExplicit_inCapitals (target : Target) : target.inCapitals.isExplicit = target.isExplicit := by
  cases target <;> rfl

end Target

/-! ## Operands -/

namespace Sentence

open Pattern Form

theorem throughLast?_upper {close : Char} (hclose : isAsciiLetter close = false) (s : List Char) :
    throughLast? close (s.map upper) = (throughLast? close s).map (·.map upper) := by
  rw [throughLast?, dropEndWhile_map (not_mark_upper hclose), throughLast?, List.isEmpty_map]
  by_cases hnone : (dropEndWhile (· != close) s).isEmpty = true
  · rw [if_pos hnone, if_pos hnone]
    rfl
  · rw [if_neg hnone, if_neg hnone]
    rfl

theorem closingMark?_spec {c close : Char} (h : closingMark? c = some close) :
    isAsciiLetter c = false ∧ isAsciiLetter close = false := by
  have hall : ∀ m ∈ markPairs, isAsciiLetter m.1 = false ∧ isAsciiLetter m.2 = false := by decide
  exact hall _ (closingMark?_eq_some_iff.mp h)

theorem quotedSpan?_upper (s : List Char) :
    quotedSpan? (s.map upper) = (quotedSpan? s).map (·.map upper) := by
  cases s with
  | nil => rfl
  | cons c s =>
    have hclosing : closingMark? (upper c) = closingMark? c := (marks_upper c).2.2.2.1
    rw [List.map_cons, quotedSpan?, quotedSpan?, hclosing]
    cases hmark : closingMark? c with
    | none => rfl
    | some close =>
      obtain ⟨hc, hclose⟩ := closingMark?_spec hmark
      simp only [throughLast?_upper hclose, Option.map_map, Function.comp_def, List.map_cons,
        upper_eq_self hc]

theorem prefix_of_quotedSpan? {s t : List Char} (h : quotedSpan? s = some t) : t <+: s := by
  cases s with
  | nil => cases h
  | cons c s =>
    rw [quotedSpan?] at h
    split at h
    · cases h
    · obtain ⟨kept, hkept, rfl⟩ := Option.map_eq_some_iff.mp h
      rw [throughLast?, Option.ite_none_left_eq_some] at hkept
      obtain rfl := Option.some.inj hkept.2
      exact (List.prefix_cons_inj c).mpr (prefix_dropEndWhile _ s)

theorem isQuotation_upper (s : List Char) : isQuotation (s.map upper) = isQuotation s := by
  rw [isQuotation, isQuotation, quotedSpan?_upper, Bool.eq_iff_iff, beq_iff_eq, beq_iff_eq]
  constructor
  · intro h
    obtain ⟨t, ht, heq⟩ := Option.map_eq_some_iff.mp h
    have hlength : t.length = s.length := by simpa using congrArg List.length heq
    rw [ht, (prefix_of_quotedSpan? ht).eq_of_length hlength]
  · intro h
    rw [h]
    rfl

theorem quotations_upper (s : List Char) :
    quotations (s.map upper) = (quotations s).map (·.map upper) := by
  rw [quotations, findAll_map ignores_quotation.upper, quotations, List.map_map, List.map_map]
  exact List.map_congr_left fun f _ => Found.text_map f

/-- The target that a text in capitals names is the target of the text, in capitals. -/
theorem operand_upper (raw : List Char) : operand (raw.map upper) = (operand raw).inCapitals := by
  have hquoted : (quotations ((trimmed raw).map upper)).map Target.ofChars =
      ((quotations (trimmed raw)).map Target.ofChars).map Target.inCapitals := by
    rw [quotations_upper, List.map_map, List.map_map]
    exact List.map_congr_left fun q _ => Target.ofChars_upper q
  have hexplicit : Target.isExplicit ∘ Target.inCapitals = Target.isExplicit :=
    funext Target.isExplicit_inCapitals
  unfold operand
  simp only [trimmed_upper, Target.ofChars_upper, Target.isExplicit_inCapitals, isQuotation_upper, hquoted,
    find?_map ignores_trailingLocator.upper]
  generalize (quotations (trimmed raw)).map Target.ofChars = quoted
  rw [List.find?_map, hexplicit, List.head?_map]
  split
  · rfl
  · cases quoted.find? Target.isExplicit with
    | some locator => rfl
    | none =>
      cases Form.trailingLocator.find? (trimmed raw) with
      | some f => simp only [Option.map_none, Option.map_some, Found.part_map, Target.ofChars_upper]
      | none =>
        cases quoted.head? with
        | some target => rfl
        | none => simp only [Option.map_none, Target.inCapitals, capitals_ofList]

end Sentence

end PlainSteps
