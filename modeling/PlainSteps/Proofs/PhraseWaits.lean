import PlainSteps.Proofs.QuotedOperand
import PlainSteps.Proofs.StatedLengths
import PlainSteps.Proofs.WordCounts

/-!
# Waits for a phrase

A sentence that waits for a phrase to be visible is one of two things. It waits for the whole phrase,
whatever words the phrase holds, unless the phrase begins with a length of time: then the sentence is a
pause.

* `match?_waitForVisible` : what follows the target of a wait has at most three words, so it does not
  begin within the phrase.
* `matches?_duration_iff` : the form of a pause is read exactly where the phrase states a length of time.
* `shouldBe_waitForVisible`, `pageLoad_waitForVisible` : no other form is read over the sentence.
* `wait_for_phrase` : the two cases, for every phrase.
-/

namespace PlainSteps.Sentence

open Pattern Form Text

/-! ## The sentence -/

/-- A text on one line without blanks at its ends. -/
structure IsPhrase (s : List Char) : Prop where
  ne_nil : s ≠ []
  line : ∀ c ∈ s, onLine c = true
  first : ∀ c ∈ s.head?, isBlank c = false
  last : ∀ c ∈ s.getLast?, isBlank c = false

def becomesVisible : List Char := toBe "visible".toList

/-- The sentence that waits for a phrase to be visible. -/
def waitForVisible (s : List Char) : List Char :=
  ['W', 'a', 'i', 't', ' ', 'f', 'o', 'r', ' '] ++ (s ++ becomesVisible)

theorem namesVisible : NamesState "visible".toList "visible" .visible :=
  ⟨by decide, by decide⟩

section

variable {s : List Char}

theorem length_words_becomesVisible {v : List Char} (hv : v ≠ [])
    (hlast : ∀ c ∈ v.getLast?, isBlank c = false) : 3 < (words (v ++ becomesVisible)).length := by
  have hrest : (words "to be visible".toList).length = 3 := by decide
  have hmore := length_words_lt hv hlast "to be visible".toList
  rw [hrest] at hmore
  exact hmore

/-! ## The target of a wait -/

theorem readsWords_waitEnding : ReadsWords 3 (chain waitEnding) := by
  have hto : ReadsWords 2 (chain [word "to", gap, leading (word "be")]) :=
    (unbroken_word (by decide)).readsWords.both
      (readsWords_gap.both (unbroken_word (by decide)).readsWords.leading)
  have his : ∀ w : String, w.toList.all isAsciiLetter = true → ReadsWords 2 (both (word w) gap) :=
    fun w hw => ((unbroken_word hw).readsWords.both readsWords_gap).mono (by decide)
  have hbecome : ReadsWords 2 (both (stem "become" "s") gap) :=
    ((unbroken_stem (by decide) (by decide)).readsWords.both readsWords_gap).mono (by decide)
  have hbecoming : ReadsWords 2 (anyOf becoming) :=
    hto.either ((his "is" (by decide)).either ((his "are" (by decide)).either hbecome))
  have hstate : ReadsWords 1 (anyOf stateForms) := by
    refine (unbroken_anyOf fun p hp => ?_).readsWords
    simp only [stateForms, List.mem_cons, List.not_mem_nil, or_false] at hp
    rcases hp with rfl | rfl | rfl | rfl | rfl | rfl | rfl | rfl | rfl | rfl
    all_goals first
      | exact unbroken_word (by decide)
      | exact unbroken_stem (by decide) (by decide)
  exact (readsWords_gap.both (hbecoming.optional.both (hstate.part .state))).optional.both
    (readsWords_blanks.both readsWords_textEnd)

theorem ways_waitEnding_within (h : IsPhrase s) {u v : List Char} (hsplit : s = u ++ v) (hv : v ≠ [])
    (before : List Char) (parts : Parts Part) :
    (chain waitEnding).ways ⟨before, v ++ becomesVisible⟩ parts = [] := by
  refine ways_of_words
    [optional (chain [gap, optional (anyOf becoming), part .state (anyOf stateForms)]), blanks]
    readsWords_waitEnding (length_words_becomesVisible hv fun c hc => h.last c ?_) parts
  rw [hsplit]
  exact List.mem_getLast?_append_of_mem_getLast? hc

theorem match?_waitForVisible (h : IsPhrase s) :
    ∃ f, Form.waitFor.match? (waitForVisible s) = some f ∧ f.part .target = s ∧
      f.part .state = "visible".toList := by
  obtain ⟨c, u, rfl⟩ := List.exists_cons_of_ne_nil h.ne_nil
  have hfor : (chain [blanks, word "wait", gap, oneOf ["for", "until"]]).ways
      (Place.start (waitForVisible (c :: u))) [] =
      [(⟨['r', 'o', 'f', ' ', 't', 'i', 'a', 'W'], ' ' :: c :: (u ++ becomesVisible)⟩, [])] := rfl
  have hlead : (chain [blanks, word "wait", gap, oneOf ["for", "until"], gap]).ways
      (Place.start (waitForVisible (c :: u))) [] =
      [(⟨[' ', 'r', 'o', 'f', ' ', 't', 'i', 'a', 'W'], c :: u ++ becomesVisible⟩, [])] := by
    refine (ways_chain_append [blanks, word "wait", gap, oneOf ["for", "until"]] [gap] _ _).trans ?_
    rw [hfor, List.flatMap_singleton]
    exact ways_gap (h.first c rfl) _ _ _
  have hread := Place.upTo_append [' ', 'r', 'o', 'f', ' ', 't', 'i', 'a', 'W'] (c :: u) becomesVisible
  rw [match?, matchAt?, waitFor_eq, first_chain_append, first_of_ways hlead,
    first_shortText h.ne_nil h.line (fun _ _ parts huv hv => ways_waitEnding_within h huv hv _ parts)
      (first_toBe namesVisible _ _ _ rfl)]
  refine ⟨_, rfl, ?_, ?_⟩
  · have hne : (Part.state == Part.target) = false := rfl
    simp only [Found.part_of_ne hne, Found.part_self, hread]
  · simp only [Found.part_self, Place.upTo_toEnd]

/-! ## Where the sentence is a pause -/

theorem mem_ways_duration (h : IsPhrase s) {r : Place × Parts Part} :
    r ∈ Form.duration.ways (Place.start (waitForVisible s)) [] ↔
      r ∈ (chain lengthForms).ways
        ⟨[' ', 'r', 'o', 'f', ' ', 't', 'i', 'a', 'W'], s ++ becomesVisible⟩ [] := by
  obtain ⟨c, u, rfl⟩ := List.exists_cons_of_ne_nil h.ne_nil
  have hlead : (chain [blanks, oneOf ["wait", "pause", "sleep"], optional (both gap (word "for"))]).ways
      (Place.start (waitForVisible (c :: u))) [] =
      [(⟨['r', 'o', 'f', ' ', 't', 'i', 'a', 'W'], ' ' :: c :: (u ++ becomesVisible)⟩, []),
        (⟨['t', 'i', 'a', 'W'], ' ' :: 'f' :: 'o' :: 'r' :: ' ' :: c :: (u ++ becomesVisible)⟩, [])] := rfl
  have hother : (chain lengthForms).ways
      ⟨[' ', 't', 'i', 'a', 'W'], 'f' :: 'o' :: 'r' :: ' ' :: c :: (u ++ becomesVisible)⟩ [] = [] := by
    -- a number does not begin with a letter
    refine List.eq_nil_iff_forall_not_mem.mpr fun r hr => ?_
    generalize hs : 'f' :: 'o' :: 'r' :: ' ' :: c :: (u ++ becomesVisible) = text at hr
    obtain ⟨hne, hdigits, -, -⟩ := exists_mem_ways_length.mp ⟨r, hr⟩
    rename_i digits _ _
    obtain ⟨d, digits, rfl⟩ := List.exists_cons_of_ne_nil hne
    obtain rfl := (List.cons.inj hs).1
    have hd := hdigits 'f' List.mem_cons_self
    revert hd
    decide
  rw [duration_eq, ways_chain_append, hlead]
  simp only [List.flatMap_cons, List.flatMap_nil, List.append_nil, ways_chain_cons,
    ways_gap (h.first c rfl), ways_gap (c := 'f') rfl, hother]
  rfl

theorem matches?_duration_iff (h : IsPhrase s) :
    Form.duration.matches? (waitForVisible s) = true ↔ StatesLength s := by
  rw [matches?_iff]
  simp only [mem_ways_duration h]
  rw [exists_mem_ways_length]
  exact statesLength_append rfl s "to be visible".toList

theorem pause?_waitForVisible (h : IsPhrase s) (hlength : StatesLength s) (usual : Number.Binary64) :
    (pause? usual (waitForVisible s) = none ∨
        ∃ seconds, pause? usual (waitForVisible s) = some (.waitDuration seconds)) ∧
      ((∀ c ∈ s, isDigit c = true → isAsciiDigit c = true) →
        ∃ seconds, pause? usual (waitForVisible s) = some (.waitDuration seconds)) := by
  obtain ⟨f, hf⟩ := Option.isSome_iff_exists.mp ((matches?_duration_iff h).mpr hlength)
  have hpause : pause? usual (waitForVisible s) = (Number.readPlain? (f.part .number)).map fun n =>
      .waitDuration (inSeconds n (f.part .unit)) := by
    rw [pause?, hf]
  rw [hpause]
  constructor
  · cases Number.readPlain? (f.part .number) with
    | none => exact .inl rfl
    | some n => exact .inr ⟨_, rfl⟩
  · intro hascii
    obtain ⟨r, hr, rfl⟩ := exists_way_of_matchAt? hf
    obtain ⟨m, hm, hfind⟩ := number_of_mem_length ((mem_ways_duration h).mp hr)
    obtain ⟨n, hn⟩ := exists_readPlain? hm fun c hc hd => by
      rcases List.mem_append.mp hc with hc | hc
      · exact hascii c hc hd
      · have hnone : becomesVisible.all (fun c => isDigit c == false) = true := by decide
        rw [beq_iff_eq.mp (List.all_eq_true.mp hnone c hc)] at hd
        cases hd
    have hnumber : ∀ p q, (⟨p, q, r.2⟩ : Found Part).part .number =
        Place.upTo ⟨[' ', 'r', 'o', 'f', ' ', 't', 'i', 'a', 'W'], s ++ becomesVisible⟩ m.1 := by
      intro p q
      rw [Found.part, Found.part?, hfind]
      rfl
    rw [hnumber, hn]
    exact ⟨_, rfl⟩

/-! ## Other forms -/

/-- What follows the element of a check that names the element first. -/
def shouldEnding : List Form :=
  [gap, word "should", gap, leading (word "be"),
    oneOf ["visible", "displayed", "shown", "present", "appear", "exist"], blanks, textEnd]

theorem shouldBe_eq : Form.shouldBe = chain ([blanks, part .target shortText] ++ shouldEnding) := rfl

theorem readsWords_shouldEnding : ReadsWords 3 (chain shouldEnding) :=
  readsWords_gap.both ((unbroken_word (by decide)).readsWords.both (readsWords_gap.both
    ((unbroken_word (by decide)).readsWords.leading.both ((unbroken_oneOf (by decide)).readsWords.both
      (readsWords_blanks.both readsWords_textEnd)))))

theorem shouldBe_waitForVisible (h : IsPhrase s) : Form.shouldBe.match? (waitForVisible s) = none := by
  refine match?_eq_none fun r hr => ?_
  rw [shouldBe_eq] at hr
  obtain ⟨m, hm, hr⟩ := mem_ways_chain_append.mp hr
  have htext : m.1.before.reverse ++ m.1.after = waitForVisible s := text_of_mem_ways hm
  rw [waitForVisible, ← List.append_assoc] at htext
  have hshort : ¬m.1.after <:+ becomesVisible := by
    -- the ending lacks a letter of the word that is read
    intro hsuffix
    obtain ⟨m₁, hgap, hr⟩ := mem_ways_chain_cons.mp hr
    obtain ⟨m₂, hshould, -⟩ := mem_ways_chain_cons.mp hr
    obtain ⟨g, hgap, -⟩ := gap_of_mem_ways hgap
    obtain ⟨v, hread, -, hv⟩ := mem_ways_letters hshould
    have hu : 'u' ∈ v.map foldCase := by
      rw [hv]
      decide
    obtain ⟨c, hc, hcu⟩ := List.mem_map.mp hu
    have hnone : becomesVisible.all (foldCase · != 'u') = true := by decide
    refine bne_iff_ne.mp (List.all_eq_true.mp hnone c (hsuffix.mem ?_)) hcu
    rw [hgap, hread]
    simp [hc]
  rcases List.append_eq_append_iff.mp htext with ⟨z, hlead, hafter⟩ | ⟨z, -, hafter⟩
  · by_cases hz : z = []
    · exact hshort (by simp [hafter, hz])
    · have hlast : ∀ c ∈ z.getLast?, isBlank c = false := by
        intro c hc
        refine h.last c ?_
        have hends := congrArg List.getLast? hlead
        rw [List.getLast?_append_of_ne_nil _ h.ne_nil, List.getLast?_append_of_ne_nil _ hz] at hends
        exact hends ▸ hc
      have hwords : 3 < (words m.1.after).length := hafter ▸ length_words_becomesVisible hz hlast
      have hnone := ways_of_words [gap, word "should", gap, leading (word "be"),
        oneOf ["visible", "displayed", "shown", "present", "appear", "exist"], blanks]
        readsWords_shouldEnding hwords m.2
      exact List.ne_nil_of_mem hr hnone
  · exact hshort ⟨z, hafter.symm⟩

/-- What is read of a page that loads, after the words that name it. -/
def loading : Form :=
  either
    (chain [leading (stem "finish" "es"), word "load", optional (oneOf ["s", "ing"])])
    (both (optional (either (both (word "is") gap) (chain [word "to", gap, word "be", gap])))
      (word "loaded"))

theorem pageLoad_eq : Form.pageLoad =
    chain ([blanks, word "wait", gap, oneOf ["for", "until"], gap, leading (word "the"), word "page",
      gap, leading (word "to")] ++ [loading, blanks, textEnd]) := rfl

theorem last_of_mem_loading {a : Place} {parts : Parts Part} {r : Place × Parts Part}
    (h : r ∈ loading.ways a parts) : ∃ d ∈ r.1.before.head?, foldCase d ∈ ['d', 's', 'g'] := by
  have hword : ∀ (w : String) (b : Place) (ps : Parts Part) (q : Place × Parts Part), w.toList ≠ [] →
      w.toList.getLast?.any (['d', 's', 'g'].contains ·) = true → q ∈ (word w).ways b ps →
      ∃ d ∈ q.1.before.head?, foldCase d ∈ ['d', 's', 'g'] := by
    intro w b ps q hne hends hq
    obtain ⟨d, hd, hlast⟩ := last_of_mem_word hne hq
    rw [hlast, Option.any_some, List.contains_iff_mem] at hends
    exact ⟨d, hd, hends⟩
  rcases mem_ways_either.mp h with h | h
  · obtain ⟨m₁, -, h⟩ := mem_ways_chain_cons.mp h
    obtain ⟨m₂, hload, h⟩ := mem_ways_chain_cons.mp h
    rcases mem_ways_either.mp h with h | h
    · obtain ⟨p, hp, hr⟩ := (mem_ways_anyOf (by simp)).mp h
      simp only [List.map_cons, List.map_nil, List.mem_cons, List.not_mem_nil, or_false] at hp
      rcases hp with rfl | rfl
      · exact hword "s" _ _ r (by decide) (by decide) hr
      · exact hword "ing" _ _ r (by decide) (by decide) hr
    · rw [mem_ways_nothing.mp h]
      exact hword "load" _ _ m₂ (by decide) (by decide) hload
  · obtain ⟨m, -, h⟩ := mem_ways_both.mp h
    exact hword "loaded" _ _ r (by decide) (by decide) h

theorem getLast?_waitForVisible (s : List Char) : (waitForVisible s).getLast? = some 'e' := by
  rw [waitForVisible, ← List.append_assoc, List.getLast?_append_of_ne_nil _ (by decide)]
  rfl

theorem pageLoad_waitForVisible (s : List Char) : Form.pageLoad.match? (waitForVisible s) = none := by
  refine match?_eq_none fun r hr => ?_
  rw [pageLoad_eq] at hr
  obtain ⟨m, hm, hr⟩ := mem_ways_chain_append.mp hr
  have htext : m.1.text = waitForVisible s := text_of_mem_ways hm
  have hlast : ∀ c ∈ m.1.after.getLast?, isBlank c = false := by
    intro c hc
    have hends := congrArg List.getLast? htext
    rw [Place.text, List.mem_getLast?_append_of_mem_getLast? hc, getLast?_waitForVisible] at hends
    obtain rfl := Option.some.inj hends
    decide
  obtain ⟨hloading, hnil⟩ := end_of_mem_ways hlast hr
  obtain ⟨d, hd, hfold⟩ := last_of_mem_loading hloading
  have hends := congrArg List.getLast? ((text_of_mem_ways hloading).trans htext)
  rw [Place.text, hnil, List.append_nil, List.getLast?_reverse, hd, getLast?_waitForVisible] at hends
  obtain rfl := Option.some.inj hends
  revert hfold
  decide

/-! ## The action of the sentence -/

theorem normalized_waitForVisible (s : List Char) :
    normalized (waitForVisible s) = waitForVisible s := by
  refine normalized_eq_self rfl ?_ ?_
  · intro c hc
    obtain rfl : 'W' = c := by simpa [waitForVisible] using hc
    decide
  · intro c hc
    rw [getLast?_waitForVisible] at hc
    obtain rfl := Option.some.inj hc
    decide

theorem verify?_waitForVisible (h : IsPhrase s) : verify? (waitForVisible s) = none := by
  have hverify : Form.verify.match? (waitForVisible s) = none := rfl
  have hsee : Form.shouldSee.match? (waitForVisible s) = none := rfl
  rw [verify?]
  simp only [List.findSome?_cons, List.findSome?_nil, hverify, hsee, shouldBe_waitForVisible h]
  rfl

theorem plainAction?_waitForVisible (h : IsPhrase s) (usual : Number.Binary64) :
    (¬StatesLength s →
      plainAction? usual (waitForVisible s) = some (.waitFor (operand s) .visible)) ∧
    (StatesLength s → plainAction? usual (waitForVisible s) = pause? usual (waitForVisible s)) := by
  have hload : pageLoad? (waitForVisible s) = none := pageLoad?_eq_none (pageLoad_waitForVisible s)
  have hclick : click? (waitForVisible s) = none := rfl
  have hfill : fill? (waitForVisible s) = none := rfl
  have hnavigate : navigate? (waitForVisible s) = none := rfl
  constructor
  · intro hlength
    have hduration : ¬Form.duration.matches? (waitForVisible s) = true :=
      fun hmatch => hlength ((matches?_duration_iff h).mp hmatch)
    obtain ⟨f, hf, htarget, hstate⟩ := match?_waitForVisible h
    have hwait : waitFor? (waitForVisible s) = some (.waitFor (operand s) .visible) := by
      rw [waitFor?, if_neg hduration, hf, ← namesVisible.stateOf, ← hstate, ← htarget]
      rfl
    simp only [plainAction?, List.findSome?_cons, hload, hwait]
  · intro hlength
    have hwait : waitFor? (waitForVisible s) = none := by
      rw [waitFor?, if_pos ((matches?_duration_iff h).mpr hlength)]
    simp only [plainAction?, List.findSome?_cons, List.findSome?_nil, hload, hwait, hclick, hfill,
      hnavigate, verify?_waitForVisible h]
    cases pause? usual (waitForVisible s) <;> rfl

theorem classify_waitForVisible (rules : Rules) (s : List Char) :
    classify rules (String.ofList (waitForVisible s)) =
      (plainAction? rules.usualPause (waitForVisible s)).getD
        (.unknown (String.ofList (waitForVisible s))) := by
  have hnormal := normalized_waitForVisible s
  have htrimmed : trimmed (waitForVisible s) = waitForVisible s := by
    rw [← hnormal]
    exact trimmed_trimmed _
  rw [classify_eq_plain, hnormal, htrimmed]
  · rw [hnormal]
    exact List.cons_ne_nil _ _
  · rw [hnormal]
    exact store?_eq_none rfl
  · rw [hnormal]
    rfl

theorem classify_wait (rules : Rules) (h : IsPhrase s) (hlength : ¬StatesLength s) :
    classify rules (String.ofList (waitForVisible s)) = .waitFor (operand s) .visible := by
  rw [classify_waitForVisible, (plainAction?_waitForVisible h _).1 hlength, Option.getD_some]

theorem classify_pause (rules : Rules) (h : IsPhrase s) (hlength : StatesLength s) :
    (classify rules (String.ofList (waitForVisible s)) = .unknown (String.ofList (waitForVisible s)) ∨
        ∃ seconds, classify rules (String.ofList (waitForVisible s)) = .waitDuration seconds) ∧
      ((∀ c ∈ s, isDigit c = true → isAsciiDigit c = true) →
        ∃ seconds, classify rules (String.ofList (waitForVisible s)) = .waitDuration seconds) := by
  obtain ⟨hcases, hascii⟩ := pause?_waitForVisible h hlength rules.usualPause
  rw [classify_waitForVisible, (plainAction?_waitForVisible h _).2 hlength]
  refine ⟨?_, fun hdigits => ?_⟩
  · rcases hcases with hnone | ⟨seconds, hsome⟩
    · exact .inl (by rw [hnone, Option.getD_none])
    · exact .inr ⟨seconds, by rw [hsome, Option.getD_some]⟩
  · obtain ⟨seconds, hsome⟩ := hascii hdigits
    exact ⟨seconds, by rw [hsome, Option.getD_some]⟩

end

theorem isPhrase_of_trim {phrase : String} (hne : phrase ≠ "") (htrim : trim phrase = phrase)
    (hline : '\n' ∉ phrase.toList) : IsPhrase phrase.toList := by
  have htrimmed : trimmed phrase.toList = phrase.toList := by rw [← toList_trim, htrim]
  refine ⟨fun hnil => hne (String.toList_eq_nil_iff.mp hnil), fun c hc => ?_, fun c hc => ?_,
    fun c hc => ?_⟩
  · rw [onLine, bne_iff_ne]
    rintro rfl
    exact hline hc
  · rw [← htrimmed] at hc
    exact not_blank_of_head_trimmed hc
  · rw [← htrimmed] at hc
    exact not_blank_of_last_trimmed hc

theorem ofList_waitForVisible (phrase : String) :
    String.ofList (waitForVisible phrase.toList) = "Wait for " ++ phrase ++ " to be visible" := by
  have hlead : String.ofList ['W', 'a', 'i', 't', ' ', 'f', 'o', 'r', ' '] = "Wait for " := by decide
  have hending : String.ofList becomesVisible = " to be visible" := by decide
  rw [waitForVisible, String.ofList_append, String.ofList_append, String.ofList_toList, hlead, hending,
    String.append_assoc]

/-- A sentence waits for the phrase that it names, whatever words the phrase holds, if and only if the
phrase does not begin with a length of time. If it does, the sentence is a pause, or an unknown one where
its digits have no value. -/
theorem wait_for_phrase (rules : Rules) {phrase : String} (hne : phrase ≠ "")
    (htrim : trim phrase = phrase) (hline : '\n' ∉ phrase.toList) :
    (classify rules ("Wait for " ++ phrase ++ " to be visible") =
        .waitFor (operand phrase.toList) .visible ↔ ¬StatesLength phrase.toList) ∧
    (StatesLength phrase.toList →
      (classify rules ("Wait for " ++ phrase ++ " to be visible") =
          .unknown ("Wait for " ++ phrase ++ " to be visible") ∨
        ∃ seconds, classify rules ("Wait for " ++ phrase ++ " to be visible") =
          .waitDuration seconds) ∧
      ((∀ c ∈ phrase.toList, isDigit c = true → isAsciiDigit c = true) →
        ∃ seconds, classify rules ("Wait for " ++ phrase ++ " to be visible") =
          .waitDuration seconds)) := by
  have h := isPhrase_of_trim hne htrim hline
  rw [← ofList_waitForVisible]
  refine ⟨⟨fun haction hlength => ?_, classify_wait rules h⟩, classify_pause rules h⟩
  -- neither an unknown sentence nor a pause is a wait
  rcases (classify_pause rules h hlength).1 with hunknown | ⟨seconds, hpause⟩
  · rw [hunknown] at haction
    cases haction
  · rw [hpause] at haction
    cases haction

theorem wait_for_phrase_items :
    let rules : Rules := { maxDepth := 8, usualPause := ⟨0⟩ }
    ("5 items" ≠ "" ∧ trim "5 items" = "5 items" ∧ '\n' ∉ "5 items".toList ∧
      StatesLength "5 items".toList ∧
      (∀ c ∈ "5 items".toList, isDigit c = true → isAsciiDigit c = true) ∧
      ∃ seconds, classify rules ("Wait for " ++ "5 items" ++ " to be visible") = .waitDuration seconds) ∧
    ("5in hidden to" ≠ "" ∧ trim "5in hidden to" = "5in hidden to" ∧ '\n' ∉ "5in hidden to".toList ∧
      ¬StatesLength "5in hidden to".toList ∧
      classify rules ("Wait for " ++ "5in hidden to" ++ " to be visible") =
        .waitFor (operand "5in hidden to".toList) .visible) := by
  intro rules
  have hlength : StatesLength "5 items".toList := by
    have h : StatesLength (['5'] ++ ([] ++ " items".toList)) :=
      .intro (by decide) (List.forall_mem_singleton.mpr (by decide)) (.inl rfl) (by rintro c ⟨rfl⟩; rfl)
    exact h
  have hdigits : ∀ c ∈ "5 items".toList, isDigit c = true → isAsciiDigit c = true := by
    have hall : "5 items".toList.all (fun c => !isDigit c || isAsciiDigit c) = true := by decide
    intro c hc hd
    simpa [hd] using List.all_eq_true.mp hall c hc
  have hnot : ¬StatesLength "5in hidden to".toList := by
    have h : IsPhrase "5in hidden to".toList := isPhrase_of_trim (by decide) (by decide) (by decide)
    rw [← matches?_duration_iff h]
    decide
  refine ⟨⟨by decide, by decide, by decide, hlength, hdigits, ?_⟩,
    by decide, by decide, by decide, hnot, ?_⟩
  · exact ((wait_for_phrase rules (by decide) (by decide) (by decide)).2 hlength).2 hdigits
  · exact (wait_for_phrase rules (by decide) (by decide) (by decide)).1.mpr hnot

end PlainSteps.Sentence
