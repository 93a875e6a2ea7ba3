import PlainSteps.Proofs.EnclosingMarks
import PlainSteps.Proofs.ValueEnds

/-!
# Values that are typed

`Sentence.typed_value`: what is typed by a sentence `Type V into "F"` is the value `V` itself, without the
blanks at its ends, unless one of three things happens. Two marks at the ends of the value are taken off,
also where they do not match. A quotation that the value opens may be closed within the field, where the
text then goes on to another field. And the field may be of more than one line.

* `match?_fill_type` : the operands of the sentence are all that follows the gap after the verb.
* `fill?_typeInto_eq_none` : operands of more than one line are not read at all.
* `classify_type_iff` : no other form fills a field, so the action is the one that the form for filling
  gives.
-/

namespace PlainSteps.Sentence

open Pattern Form Text

/-! ## The sentence -/

def typeVerb : List Char := ['T', 'y', 'p', 'e']

/-- The verb of a sentence that fills a field. -/
def verbForms : List Form := fillLead.dropLast

theorem fill_eq_verbForms :
    Form.fill = chain (verbForms ++ gap :: [part .operands longText, textEnd]) := rfl

section

variable {s : List Char}

theorem not_other_form_type (s : List Char) :
    ∀ p ∈ [Form.numbering, Form.store, Form.conditional, Form.pageLoad, Form.duration, Form.waitFor,
      Form.click], p.match? (typeVerb ++ ' ' :: s) = none := by
  simp only [List.forall_mem_cons, List.not_mem_nil, false_imp_iff, implies_true, and_true]
  exact ⟨rfl, rfl, rfl, rfl, rfl, rfl, rfl⟩

theorem ways_type (s : List Char) : (chain verbForms).ways (Place.start (typeVerb ++ ' ' :: s)) [] =
    [(⟨typeVerb.reverse, ' ' :: s⟩,
      [(.verb, Place.start (typeVerb ++ ' ' :: s), ⟨typeVerb.reverse, ' ' :: s⟩)])] :=
  rfl

theorem match?_fill_type {a : List Char} (ha : ∀ c ∈ a, isBlank c = true)
    (hfirst : ∀ c ∈ s.head?, isBlank c = false) (hne : s ≠ []) (hline : s.all onLine = true) :
    ∃ f, Form.fill.match? (typeVerb ++ ' ' :: (a ++ s)) = some f ∧
      f.part .operands = s ∧ f.part .verb = typeVerb := by
  have hgap : IsGap (' ' :: a) := ⟨List.cons_ne_nil _ _, List.forall_mem_cons.mpr ⟨rfl, ha⟩⟩
  have hhead := head?_ways_gap hgap hfirst typeVerb.reverse
    [(.verb, Place.start (typeVerb ++ ' ' :: (a ++ s)), ⟨typeVerb.reverse, ' ' :: (a ++ s)⟩)]
  have hrest := first_toEnd_of_line .operands hne hline
    (fun end_ parts => some (⟨Place.start (typeVerb ++ ' ' :: (a ++ s)), end_, parts⟩ : Found Part))
    ((' ' :: a).reverse ++ typeVerb.reverse)
    [(.verb, Place.start (typeVerb ++ ' ' :: (a ++ s)), ⟨typeVerb.reverse, ' ' :: (a ++ s)⟩)]
  rw [match?, matchAt?, fill_eq_verbForms, first_chain_append, first_of_ways (ways_type _),
    first_chain_cons]
  refine ⟨_, first_of_head hhead hrest, ?_, ?_⟩
  · simp only [Found.part_self, Place.upTo_toEnd]
  · have hother : (Part.operands == Part.verb) = false := rfl
    simp only [Found.part_of_ne hother, Found.part_self]
    exact Place.upTo_start typeVerb (' ' :: (a ++ s))

theorem fill?_type {a : List Char} (ha : ∀ c ∈ a, isBlank c = true)
    (hfirst : ∀ c ∈ s.head?, isBlank c = false) (hne : s ≠ []) (hline : s.all onLine = true)
    {g : Found Part} (hg : Form.fillInto.match? s = some g) :
    fill? (typeVerb ++ ' ' :: (a ++ s)) =
      some (.fill (String.ofList (unquoted (g.part .value))) (operand (g.part .target))) := by
  obtain ⟨f, hf, hoperands, hverb⟩ := match?_fill_type ha hfirst hne hline
  have horder : startsWith "fill".toList (typeVerb.map lower) = false := by decide
  rw [fill?, hf]
  simp only [Option.bind_eq_bind, Option.bind_some, hverb, horder, hoperands, Bool.false_eq_true, if_false,
    List.findSome?_cons, hg]

theorem mem_of_gap {g u x y : List Char} {c d : Char} (hg : ∀ e ∈ g, isBlank e = true)
    (hc : isBlank c = false) (h : x ++ c :: y = g ++ u) (hd : d ∈ y) : d ∈ u := by
  rcases List.append_eq_append_iff.mp h with ⟨e, rfl, he⟩ | ⟨e, -, rfl⟩
  · cases e with
    | nil =>
      obtain rfl : c :: y = u := he
      exact List.mem_cons_of_mem c hd
    | cons e rest =>
      obtain ⟨rfl, -⟩ := List.cons.inj he
      rw [hg c (by simp)] at hc
      cases hc
  · exact List.mem_append_right _ (List.mem_cons_of_mem c hd)

theorem fill?_type_eq_none {x y : List Char} {c : Char} (hc : isBlank c = false) (hs : s = x ++ c :: y)
    (hline : '\n' ∈ y) : fill? (typeVerb ++ ' ' :: s) = none := by
  have hnone : Form.fill.match? (typeVerb ++ ' ' :: s) = none := by
    rw [match?, matchAt?, fill_eq_verbForms, first_chain_append, first_of_ways (ways_type _),
      first_chain_cons, first_eq_findSome, List.findSome?_eq_none_iff]
    rintro ⟨⟨before, after⟩, parts⟩ hr
    obtain ⟨g, hafter, -, hg⟩ := gap_of_mem_ways hr
    have hsplit : (' ' :: x) ++ c :: y = g ++ after := by rw [List.cons_append, ← hs]; exact hafter
    have hfeed : '\n' ∈ after := mem_of_gap hg hc hsplit hline
    obtain ⟨d, after, rfl⟩ := List.exists_cons_of_ne_nil (List.ne_nil_of_mem hfeed)
    have hnot : ¬(d :: after).all onLine = true := by
      intro hall
      exact absurd (List.all_eq_true.mp hall _ hfeed) (by decide)
    rw [first_toEnd, if_neg hnot]
  rw [fill?, hnone]
  rfl

theorem fill?_of_plainAction {usual : Number.Binary64} {value : String} {target : Target}
    (h : plainAction? usual s = some (.fill value target)) : fill? s = some (.fill value target) := by
  obtain ⟨form, hform, h⟩ := List.exists_of_findSome?_eq_some h
  simp only [List.mem_cons, List.not_mem_nil, or_false] at hform
  rcases hform with rfl | rfl | rfl | rfl | rfl | rfl | rfl
  · rw [pageLoad?, Option.ite_none_right_eq_some] at h
    cases h.2
  · rw [waitFor?, Option.ite_none_left_eq_some] at h
    obtain ⟨f, -, hf⟩ := Option.bind_eq_some_iff.mp h.2
    cases hf
  · obtain ⟨f, -, hf⟩ := Option.bind_eq_some_iff.mp h
    cases hf
  · exact h
  · obtain ⟨f, -, hf⟩ := Option.bind_eq_some_iff.mp h
    obtain ⟨url, -, hurl⟩ := Option.bind_eq_some_iff.mp hf
    cases hurl
  · obtain ⟨f, -, hf⟩ := Option.bind_eq_some_iff.mp h
    simp only [Option.ite_none_left_eq_some, Option.some.injEq] at hf
    cases hf.2
  · rw [pause?] at h
    split at h
    · obtain ⟨n, -, hn⟩ := Option.map_eq_some_iff.mp h
      cases hn
    · rw [Option.ite_none_right_eq_some] at h
      cases h.2

theorem classify_type_iff (rules : Rules) (hlast : s.getLast? = some '"') {value : String}
    {target : Target} : classify rules (String.ofList (typeVerb ++ ' ' :: s)) = .fill value target ↔
      fill? (typeVerb ++ ' ' :: s) = some (.fill value target) := by
  have hother := not_other_form_type s
  simp only [List.forall_mem_cons, List.not_mem_nil, false_imp_iff, implies_true, and_true] at hother
  obtain ⟨hnumbering, hstore, hconditional, hload, hduration, hwait, hclick⟩ := hother
  have hend : (typeVerb ++ ' ' :: s).getLast? = some '"' := by
    obtain ⟨c, s, rfl⟩ := List.exists_cons_of_ne_nil (l := s) (by rintro rfl; cases hlast)
    rw [List.getLast?_append, List.getLast?_cons_cons, hlast, Option.some_or]
  have hnormal : normalized (typeVerb ++ ' ' :: s) = typeVerb ++ ' ' :: s := by
    refine normalized_eq_self hnumbering (by rintro c ⟨rfl⟩; rfl) fun c hc => ?_
    rw [hend] at hc
    obtain rfl : '"' = c := by simpa using hc
    exact ⟨rfl, rfl⟩
  have hplain := @classify_eq_plain rules (typeVerb ++ ' ' :: s) (by rw [hnormal]; simp)
    (by rw [hnormal]; exact store?_eq_none hstore) (by rw [hnormal]; exact hconditional)
  rw [hplain, hnormal]
  constructor
  · intro h
    cases haction : plainAction? rules.usualPause (typeVerb ++ ' ' :: s) with
    | none =>
      rw [haction] at h
      cases h
    | some action =>
      rw [haction, Option.getD_some] at h
      exact fill?_of_plainAction (haction.trans (congrArg some h))
  · intro h
    have hclick' : click? (typeVerb ++ ' ' :: s) = none := by
      rw [click?, hclick]
      rfl
    simp only [plainAction?, List.findSome?_cons, pageLoad?_eq_none hload, waitFor?_eq_none hduration hwait,
      hclick', h, Option.getD_some]

end

/-! ## Every value and every field -/

section

variable {v f : List Char}

/-- The sentence that types a value into a field. -/
def typeInto (v f : List Char) : List Char := typeVerb ++ ' ' :: (v ++ (intoWords ++ inQuotes f))

theorem all_onLine_iff {s : List Char} : s.all onLine = true ↔ '\n' ∉ s := by
  simp [onLine, List.forall_mem_ne']

theorem exists_fill?_typeInto (ht : IsPhrase (trimmed v)) (hline : '\n' ∉ v)
    (hwords : ∀ w ∈ words v, ¬IsPlaceWord w) (hf : '\n' ∉ f) :
    ∃ g : Found Part, fill? (typeInto v f) =
        some (.fill (String.ofList (unquoted (g.part .value))) (operand (g.part .target))) ∧
      (¬RunsOver (trimmed v) f ∧ g.part .value = trimmed v ∧ g.part .target = inQuotes f ∨
        RunsOver (trimmed v) f ∧ "into".toList ∈ words (unquoted (g.part .value))) := by
  obtain ⟨a, b, hv, ha, hb⟩ := exists_blanks v
  have hoperands : v ++ (intoWords ++ inQuotes f) = a ++ typedOperands (trimmed v) b f := by
    conv_lhs => rw [hv]
    simp [typedOperands]
  have hfirst : ∀ c ∈ (typedOperands (trimmed v) b f).head?, isBlank c = false := by
    intro c hc
    rw [typedOperands, List.head?_append_of_ne_nil _ ht.ne_nil] at hc
    exact ht.first c hc
  have hall : (v ++ (intoWords ++ inQuotes f)).all onLine = true := by
    rw [List.all_append, List.all_append, all_onLine_iff.mpr hline, (all_onLine_inQuotes f).mpr hf]
    rfl
  rw [hoperands, List.all_append, Bool.and_eq_true] at hall
  rw [← words_trimmed] at hwords
  obtain ⟨g, hg, hcases⟩ := match?_fillInto_typed ht hwords hb hf
  refine ⟨g, ?_, hcases⟩
  rw [typeInto, hoperands]
  exact fill?_type ha hfirst (by simp [typedOperands, ht.ne_nil]) hall.2 hg

theorem fill?_typeInto_eq_none (hv : trimmed v ≠ []) (hf : '\n' ∈ f) : fill? (typeInto v f) = none := by
  obtain ⟨a, b, hsplit, -, -⟩ := exists_blanks v
  obtain ⟨c, t, hc⟩ := List.exists_cons_of_ne_nil hv
  have htext : v ++ (intoWords ++ inQuotes f) = a ++ c :: (t ++ (b ++ (intoWords ++ inQuotes f))) := by
    conv_lhs => rw [hsplit, hc]
    simp
  exact fill?_type_eq_none (not_blank_of_head_trimmed (by rw [hc]; rfl)) htext (by simp [inQuotes, hf])

/-- On a field of one line the sentence types the value, unquoted, into that field, unless a quotation runs
over; and in no other case does it type the value. -/
theorem classify_typeInto (rules : Rules) (ht : IsPhrase (trimmed v)) (hline : '\n' ∉ v)
    (hwords : ∀ w ∈ words v, ¬IsPlaceWord w) :
    ('\n' ∉ f ∧ ¬RunsOver (trimmed v) f → classify rules (String.ofList (typeInto v f)) =
      .fill (String.ofList (unquoted v)) (operand (inQuotes f))) ∧
    ∀ target, classify rules (String.ofList (typeInto v f)) = .fill (String.ofList (trimmed v)) target →
      '\n' ∉ f ∧ ¬RunsOver (trimmed v) f := by
  have hlast : (v ++ (intoWords ++ inQuotes f)).getLast? = some '"' := by
    rw [← List.append_assoc, List.getLast?_append, getLast?_inQuotes, Option.some_or]
  constructor
  · rintro ⟨hf, hover⟩
    refine (classify_type_iff rules hlast).mpr ?_
    obtain ⟨g, hg, ⟨-, hvalue, htarget⟩ | ⟨h, -⟩⟩ := exists_fill?_typeInto ht hline hwords hf
    · rwa [hvalue, htarget, unquoted_trimmed] at hg
    · exact absurd h hover
  · intro target htyped
    have hfill := (classify_type_iff rules hlast).mp htyped
    change fill? (typeInto v f) = _ at hfill
    have hf : '\n' ∉ f := by
      intro hmem
      rw [fill?_typeInto_eq_none ht.ne_nil hmem] at hfill
      cases hfill
    refine ⟨hf, fun hover => ?_⟩
    obtain ⟨g, hg, ⟨h, -⟩ | ⟨-, hinto⟩⟩ := exists_fill?_typeInto ht hline hwords hf
    · exact h hover
    · -- what is typed then holds the word, but the value does not
      rw [hg] at hfill
      have hvalue := (Action.fill.inj (Option.some.inj hfill)).1
      rw [String.ofList_inj.mp hvalue, words_trimmed] at hinto
      exact hwords _ hinto (by decide : lowered (String.ofList "into".toList) ∈ placeWords)

theorem isPhrase_trimmed {value : String} (hne : trim value ≠ "") (hline : '\n' ∉ value.toList) :
    IsPhrase (trimmed value.toList) := by
  have hphrase : IsPhrase (trim value).toList := by
    refine isPhrase_of_trim hne ?_ fun hc => ?_
    · rw [← String.toList_inj, toList_trim, toList_trim, trimmed_trimmed]
    · rw [toList_trim] at hc
      exact hline ((infix_trimmed _).mem hc)
  rwa [toList_trim] at hphrase

theorem ofList_typeInto (value field : String) :
    String.ofList (typeInto value.toList field.toList) = "Type " ++ value ++ " into " ++ quoted field := by
  rw [← String.toList_inj, String.toList_ofList]
  simp [typeInto, typeVerb, intoWords, quoted, inQuotes]

end

/-- Matching marks at the ends of a text are taken off, and a text is changed by that only where two marks
stand at its ends. A sentence that types a value without matching marks at its ends, and without any of the
four words that lead to a field, types the value itself into the field that it names if and only if no two
other marks stand at the ends of the value, the field is of one line, and no quotation that the value opens
runs over into it. -/
theorem typed_value (rules : Rules) :
    (∀ text : String,
      (∀ opening inner closing, MarksMatch opening closing ∨ MarksDiffer opening closing →
        (trim text).toList = opening :: (inner ++ [closing]) → unquote text = trim (String.ofList inner)) ∧
      (¬StandsBetween MarksMatch (trim text).toList →
        (unquote text = trim text ↔ ¬StandsBetween MarksDiffer (trim text).toList))) ∧
    ∀ value field : String, trim value ≠ "" → '\n' ∉ value.toList →
      (∀ w ∈ wordsOf value, lowered w ∉ placeWords) → ¬StandsBetween MarksMatch (trim value).toList →
      (classify rules ("Type " ++ value ++ " into " ++ quoted field) =
          .fill (trim value) (operand (quoted field).toList) ↔
        ¬StandsBetween MarksDiffer (trim value).toList ∧ '\n' ∉ field.toList ∧
          ¬RunsOver (trim value).toList field.toList) ∧
      ∀ target, classify rules ("Type " ++ value ++ " into " ++ quoted field) = .fill (trim value) target →
        target = operand (quoted field).toList := by
  have hunquote : ∀ text : String, ¬StandsBetween MarksMatch (trim text).toList →
      (unquote text = trim text ↔ ¬StandsBetween MarksDiffer (trim text).toList) := by
    intro text hmatch
    rw [standsBetween_differ_iff hmatch, toList_trim, ← unquoted_eq_trimmed_iff, ← String.toList_inj,
      toList_unquote, toList_trim]
  refine ⟨fun text => ⟨fun opening inner closing hmarks htext => ?_, hunquote text⟩, ?_⟩
  · have hboth : isQuoteMark opening = true ∧ isQuoteMark closing = true :=
      hmarks.elim marks_of_match (·.1)
    rw [toList_trim] at htext
    rw [← String.toList_inj, toList_unquote, toList_trim, String.toList_ofList,
      unquoted_between hboth htext]
  · intro value field hne hline hwords hmatch
    have ht := isPhrase_trimmed hne hline
    have hwords' : ∀ w ∈ words value.toList, ¬IsPlaceWord w := fun w hw =>
      hwords _ (List.mem_map_of_mem hw)
    have hquoted : (quoted field).toList = inQuotes field.toList := by
      rw [← ofList_inQuotes, String.toList_ofList]
    obtain ⟨hto, hfrom⟩ := classify_typeInto (f := field.toList) rules ht hline hwords'
    rw [ofList_typeInto, ← toList_trim, ← hquoted] at hto
    simp only [ofList_typeInto, ← toList_trim, String.ofList_toList] at hfrom
    have htyped : ∀ target,
        classify rules ("Type " ++ value ++ " into " ++ quoted field) = .fill (trim value) target →
        unquote value = trim value ∧ target = operand (quoted field).toList := by
      intro target h
      obtain ⟨hvalue, htarget⟩ := Action.fill.inj ((hto (hfrom target h)).symm.trans h)
      exact ⟨hvalue, htarget.symm⟩
    refine ⟨⟨fun h => ?_, fun ⟨hmarks, hfield⟩ => ?_⟩, fun target h => (htyped target h).2⟩
    · exact ⟨(hunquote value hmatch).mp (htyped _ h).1, hfrom _ h⟩
    · rw [hto hfield, ← (hunquote value hmatch).mpr hmarks]
      rfl

/-- Any two typographic marks match. Marks within a value stay, and marks that do not match are taken off its
ends. A value that opens a quotation is read together with the beginning of the field where that goes on to
another. -/
theorem typed_value_marks :
    let rules : Rules := { maxDepth := 8, usualPause := ⟨0⟩ }
    (MarksMatch '“' '’' ∧ (trim "“ it's ’").toList = '“' :: (" it's ".toList ++ ['’']) ∧
      unquote "“ it's ’" = trim (String.ofList " it's ".toList)) ∧
    (¬StandsBetween MarksMatch (trim "\"abc'").toList ∧ unquote "\"abc'" ≠ trim "\"abc'") ∧
    (trim " \"Best\" of 'em " ≠ "" ∧ '\n' ∉ " \"Best\" of 'em ".toList ∧
      (∀ w ∈ wordsOf " \"Best\" of 'em ", lowered w ∉ placeWords) ∧
      ¬StandsBetween MarksMatch (trim " \"Best\" of 'em ").toList ∧
      classify rules ("Type " ++ " \"Best\" of 'em " ++ " into " ++ quoted "to \"in\" x") =
        .fill (trim " \"Best\" of 'em ") (operand (quoted "to \"in\" x").toList)) ∧
    (trim "'til 5\"" ≠ "" ∧ '\n' ∉ "'til 5\"".toList ∧ (∀ w ∈ wordsOf "'til 5\"", lowered w ∉ placeWords) ∧
      ¬StandsBetween MarksMatch (trim "'til 5\"").toList ∧
      classify rules ("Type " ++ "'til 5\"" ++ " into " ++ quoted "Height") ≠
        .fill (trim "'til 5\"") (operand (quoted "Height").toList)) ∧
    (trim "\"5" ≠ "" ∧ '\n' ∉ "\"5".toList ∧ (∀ w ∈ wordsOf "\"5", lowered w ∉ placeWords) ∧
      ¬StandsBetween MarksMatch (trim "\"5").toList ∧
      classify rules ("Type " ++ "\"5" ++ " into " ++ quoted " in stock") ≠
        .fill (trim "\"5") (operand (quoted " in stock").toList)) := by
  intro rules
  obtain ⟨hunquote, htyped⟩ := typed_value rules
  have habc : ¬StandsBetween MarksMatch (trim "\"abc'").toList :=
    not_standsBetween '"' '\'' (by decide) (by decide) (by decide)
  have hbest : ¬StandsBetween MarksMatch (trim " \"Best\" of 'em ").toList :=
    not_standsBetween '"' 'm' (by decide) (by decide) (by decide)
  have htil : ¬StandsBetween MarksMatch (trim "'til 5\"").toList :=
    not_standsBetween '\'' '"' (by decide) (by decide) (by decide)
  have hfive : ¬StandsBetween MarksMatch (trim "\"5").toList :=
    not_standsBetween '"' '5' (by decide) (by decide) (by decide)
  have hinside : (trim "“ it's ’").toList = '“' :: (" it's ".toList ++ ['’']) := by decide
  refine ⟨⟨by decide, hinside, (hunquote _).1 _ _ _ (.inl (by decide)) hinside⟩,
    ⟨habc, fun h => ?_⟩, ⟨by decide, by decide, by decide, hbest, ?_⟩,
    ⟨by decide, by decide, by decide, htil, fun h => ?_⟩, by decide, by decide, by decide, hfive, fun h => ?_⟩
  · exact ((hunquote "\"abc'").2 habc).mp h ⟨'"', "abc".toList, '\'', by decide, by decide⟩
  · refine ((htyped _ _ (by decide) (by decide) (by decide) hbest).1).mpr ⟨?_, by decide, ?_⟩
    · exact not_standsBetween '"' 'm' (by decide) (by decide) (by decide)
    · rintro ⟨p, q, -, hp, hsegment, -⟩
      have hword : IsSegment ('"' :: ("Best".toList ++ ['"'])) := isSegment_iff.mpr ⟨rfl, by decide⟩
      have htrim : (trim " \"Best\" of 'em ").toList = '"' :: ("Best".toList ++ ['"']) ++ " of 'em".toList := by
        decide
      rw [htrim] at hsegment
      have heq := hword.eq_of_prefix hsegment ⟨" of 'em".toList ++ p, by simp⟩ List.prefix_rfl
      simp at heq
  · exact ((htyped _ _ (by decide) (by decide) (by decide) htil).1.mp h).1
      ⟨'\'', "til 5".toList, '"', by decide, by decide⟩
  · refine ((htyped _ _ (by decide) (by decide) (by decide) hfive).1.mp h).2.2 ?_
    have hsegment : IsSegment ('"' :: ("5".toList ++ ['"'])) := isSegment_iff.mpr ⟨rfl, by decide⟩
    have hword : lowered (String.ofList "in".toList) ∈ placeWords := by decide
    have hfield : GoesOn ([' '] ++ ("in".toList ++ ' ' :: "stock".toList)) :=
      .intro ⟨List.cons_ne_nil _ _, List.all_eq_true.mp rfl⟩ hword rfl
    exact ⟨['"'], " in stock".toList, rfl, List.cons_ne_nil _ _, hsegment, hfield⟩

end PlainSteps.Sentence
