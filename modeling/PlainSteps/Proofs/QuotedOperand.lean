import PlainSteps.Proofs.Classification
import PlainSteps.Proofs.QuotedCheck
import PlainSteps.Proofs.StoreSentence

/-!
# Sentences about a quoted text

`Sentence.quoted_operand_literal`: a text between double quotes is taken as it stands by a click, a
check, a wait and a store, whatever marks, keywords or stop words it holds, as long as it is on one line
and is no locator.

Only its closing mark ends the text. A form reads the text as the shortest that what follows allows
(`first_quoted`), and what follows allows none that ends before the mark: the rest of a wait reads no
mark at all, and the rest of a store reads marks in its last word only, which begins after the text.
-/

namespace PlainSteps.Sentence

open Pattern Form Text

variable {α : Type}

/-! ## A quoted text and what follows it -/

theorem first_quoted {label : Part} {rest : List Form} {s tail : List Char} (hline : '\n' ∉ s)
    {next : Place → Parts Part → Option α} {before : List Char} {parts : Parts Part} {x : α}
    (hinside : ∀ before u parts, (chain rest).ways ⟨before, u ++ '"' :: tail⟩ parts = [])
    (hx : (chain rest).first next ⟨(inQuotes s).reverse ++ before, tail⟩
      ((label, ⟨before, inQuotes s ++ tail⟩, ⟨(inQuotes s).reverse ++ before, tail⟩) :: parts) =
        some x) :
    (chain (part label shortText :: rest)).first next ⟨before, inQuotes s ++ tail⟩ parts =
      some x := by
  have hne : inQuotes s ≠ [] := List.cons_ne_nil _ _
  refine first_shortText hne ?_ ?_ hx
  · intro c hc
    rw [onLine, bne_iff_ne]
    rintro rfl
    simp [inQuotes, hline] at hc
  · intro u v parts huv hv
    rcases List.eq_nil_or_concat v with rfl | ⟨v, d, rfl⟩
    · exact absurd rfl hv
    · rw [List.concat_eq_append] at huv ⊢
      obtain rfl : '"' = d := by simpa [getLast?_inQuotes] using congrArg List.getLast? huv
      rw [List.append_assoc, List.singleton_append, hinside]

/-! ## Clicks -/

/-- The sentence that clicks a text. -/
def clickOn (s : List Char) : List Char := ['C', 'l', 'i', 'c', 'k', ' '] ++ inQuotes s

section

variable (s : List Char)

theorem normalized_clickOn : normalized (clickOn s) = clickOn s := by
  refine normalized_eq_self rfl ?_ ?_
  · intro c hc
    obtain rfl : 'C' = c := by simpa [clickOn] using hc
    rfl
  · intro c hc
    rw [clickOn, List.getLast?_append, getLast?_inQuotes, Option.some_or] at hc
    obtain rfl : '"' = c := by simpa using hc
    exact ⟨rfl, rfl⟩

theorem ways_clickOn : (chain [blanks,
      anyOf [chain [word "double", optional (one fun c => c == '-' || isBlank c), word "click"],
        word "click", word "press", word "tap"],
      optional (both gap (word "on")), gap]).ways (Place.start (clickOn s)) [] =
    [(⟨[' ', 'k', 'c', 'i', 'l', 'C'], inQuotes s⟩, [])] := rfl

theorem click?_clickOn (hline : '\n' ∉ s) :
    click? (clickOn s) = some (.click (operand (inQuotes s))) := by
  obtain ⟨f, hf, htarget⟩ := match?_toEnd .target (ways_clickOn s) (List.cons_ne_nil _ _)
    ((all_onLine_inQuotes s).mpr hline)
  have hclick : Form.click.match? (clickOn s) = some f := hf
  rw [click?, hclick]
  simp only [Option.bind_eq_bind, Option.bind_some, htarget]

theorem classify_clickOn (rules : Rules) (hline : '\n' ∉ s) :
    classify rules (String.ofList (clickOn s)) = .click (operand (inQuotes s)) := by
  have hstore : store? (clickOn s) = none := store?_eq_none rfl
  have hload : pageLoad? (clickOn s) = none := pageLoad?_eq_none rfl
  have hwait : waitFor? (clickOn s) = none := waitFor?_eq_none rfl rfl
  have hnormal := normalized_clickOn s
  refine classify_of_plain ?_ ?_ ?_ ?_ <;> rw [hnormal]
  · exact List.cons_ne_nil _ _
  · exact hstore
  · rfl
  · simp only [plainAction?, List.findSome?_cons, hload, hwait, click?_clickOn s hline]

end

/-! ## Waits -/

/-- The words that a wait may end in, each with the state it names. -/
def stateWords : List (String × ElementState) :=
  [("visible", .visible), ("hidden", .hidden), ("appear", .visible), ("appears", .visible),
    ("disappear", .hidden), ("disappears", .hidden), ("attached", .attached),
    ("detached", .detached), ("gone", .hidden), ("present", .visible), ("displayed", .visible),
    ("shown", .visible)]

/-- The forms of these words. -/
def stateForms : List Form :=
  [word "visible", word "hidden", stem "appear" "s", stem "disappear" "s", word "attached",
    word "detached", word "gone", word "present", word "displayed", word "shown"]

/-- What may stand before the word for a state. -/
def becoming : List Form :=
  [chain [word "to", gap, leading (word "be")], both (word "is") gap, both (word "are") gap,
    both (stem "become" "s") gap]

/-- What follows the target of a wait. -/
def waitEnding : List Form :=
  [optional (chain [gap, optional (anyOf becoming), part .state (anyOf stateForms)]), blanks,
    textEnd]

/-- The sentence that waits for a text, with an ending. -/
def waitOn (s ending : List Char) : List Char :=
  ['W', 'a', 'i', 't', ' ', 'f', 'o', 'r', ' '] ++ (inQuotes s ++ ending)

/-- The ending of a wait for a state. -/
def toBe (w : List Char) : List Char := [' ', 't', 'o', ' ', 'b', 'e', ' '] ++ w

theorem mem_ways_state {w : String} {state : ElementState} (hw : (w, state) ∈ stateWords)
    {t : List Char} (ht : t.map foldCase = w.toList) (before s : List Char) (parts : Parts Part) :
    (⟨t.reverse ++ before, s⟩, parts) ∈ (anyOf stateForms).ways ⟨before, t ++ s⟩ parts := by
  have hstem : ∀ w ending : String, stem w ending ∈ stateForms →
      (t.map foldCase = w.toList ∨ t.map foldCase = w.toList ++ ending.toList) →
      (⟨t.reverse ++ before, s⟩, parts) ∈ (anyOf stateForms).ways ⟨before, t ++ s⟩ parts :=
    fun _ _ hp h => (mem_ways_anyOf (by simp [stateForms])).mpr
      ⟨_, hp, mem_ways_of_stem h before s parts⟩
  have hword : word w ∈ stateForms →
      (⟨t.reverse ++ before, s⟩, parts) ∈ (anyOf stateForms).ways ⟨before, t ++ s⟩ parts :=
    fun hp => (mem_ways_anyOf (by simp [stateForms])).mpr
      ⟨_, hp, mem_ways_of_word ht before s parts⟩
  simp only [stateWords, List.mem_cons, Prod.mk.injEq, List.not_mem_nil, or_false] at hw
  rcases hw with ⟨rfl, -⟩ | ⟨rfl, -⟩ | ⟨rfl, -⟩ | ⟨rfl, -⟩ | ⟨rfl, -⟩ | ⟨rfl, -⟩ | ⟨rfl, -⟩ |
    ⟨rfl, -⟩ | ⟨rfl, -⟩ | ⟨rfl, -⟩ | ⟨rfl, -⟩ | ⟨rfl, -⟩
  · exact hword (by simp [stateForms])
  · exact hword (by simp [stateForms])
  · exact hstem "appear" "s" (by simp [stateForms]) (.inl ht)
  · exact hstem "appear" "s" (by simp [stateForms]) (.inr ht)
  · exact hstem "disappear" "s" (by simp [stateForms]) (.inl ht)
  · exact hstem "disappear" "s" (by simp [stateForms]) (.inr ht)
  · exact hword (by simp [stateForms])
  · exact hword (by simp [stateForms])
  · exact hword (by simp [stateForms])
  · exact hword (by simp [stateForms])
  · exact hword (by simp [stateForms])
  · exact hword (by simp [stateForms])

/-- A word for a state, in any case of its letters. -/
structure NamesState (t : List Char) (w : String) (state : ElementState) : Prop where
  mem : (w, state) ∈ stateWords
  lower : t.map lower = w.toList

theorem NamesState.letters {t : List Char} {w : String} {state : ElementState}
    (h : NamesState t w state) : ∀ c ∈ t, isAsciiLetter c = true := by
  have hall : ∀ e ∈ stateWords, e.1.toList.all isAsciiLetter = true := by decide
  intro c hc
  refine letter_of_lower (List.all_eq_true.mp (hall _ h.mem) _ ?_)
  rw [← h.lower]
  exact List.mem_map_of_mem hc

theorem NamesState.foldCase {t : List Char} {w : String} {state : ElementState}
    (h : NamesState t w state) : t.map Form.foldCase = w.toList := by
  rw [← h.lower]
  exact List.map_congr_left fun c hc => (letter_spec (h.letters c hc)).2.2

theorem stateOf_congr {s t : List Char} (h : s.map lower = t.map lower) : stateOf s = stateOf t := by
  simp only [stateOf, lowered, String.toList_ofList, h]

theorem NamesState.stateOf {t : List Char} {w : String} {state : ElementState}
    (h : NamesState t w state) : stateOf t = state := by
  have hlower : ∀ e ∈ stateWords, e.1.toList.map Text.lower = e.1.toList := by decide
  have hall : ∀ e ∈ stateWords, Sentence.stateOf e.1.toList = e.2 := by decide
  rw [stateOf_congr (h.lower.trans (hlower _ h.mem).symm)]
  exact hall _ h.mem

theorem ways_gap {c : Char} (hc : isBlank c = false) (before s : List Char) (parts : Parts Part) :
    gap.ways ⟨before, ' ' :: c :: s⟩ parts = [(⟨' ' :: before, c :: s⟩, parts)] := by
  have hblank : isBlank ' ' = true := rfl
  simp [gap, ways, hblank, reachable, hc]

theorem NamesState.last_not_blank {t : List Char} {w : String} {state : ElementState}
    (h : NamesState t w state) : ∀ c ∈ t.getLast?, isBlank c = false :=
  fun c hc => (letter_spec (h.letters c (List.mem_of_getLast? hc))).1

theorem NamesState.ne_nil {t : List Char} {w : String} {state : ElementState}
    (h : NamesState t w state) : t ≠ [] := by
  have hall : ∀ e ∈ stateWords, e.1.toList ≠ [] := by decide
  rintro rfl
  exact hall _ h.mem h.lower.symm

theorem NamesState.last_of_toBe {t : List Char} {w : String} {state : ElementState}
    (h : NamesState t w state) :
    ∀ c ∈ (toBe t).getLast?, isBlank c = false ∧ isFinalMark c = false := by
  intro c hc
  rw [toBe, List.getLast?_append, List.getLast?_eq_some_getLast h.ne_nil, Option.some_or] at hc
  obtain rfl := Option.some.inj hc
  have hspec := letter_spec (h.letters _ (List.getLast_mem h.ne_nil))
  exact ⟨hspec.1, hspec.2.1⟩

theorem first_toBe {t : List Char} {w : String} {state : ElementState} (h : NamesState t w state)
    (next : Place → Parts Part → Option α) (before : List Char) (parts : Parts Part) {x : α}
    (hx : next ⟨t.reverse ++ ([' ', 'e', 'b', ' ', 'o', 't', ' '] ++ before), []⟩
      ((.state, ⟨[' ', 'e', 'b', ' ', 'o', 't', ' '] ++ before, t⟩,
        ⟨t.reverse ++ ([' ', 'e', 'b', ' ', 'o', 't', ' '] ++ before), []⟩) :: parts) = some x) :
    (chain waitEnding).first next ⟨before, toBe t⟩ parts = some x := by
  obtain ⟨c, u, rfl⟩ := List.exists_cons_of_ne_nil h.ne_nil
  have hc : isBlank c = false := (letter_spec (h.letters c List.mem_cons_self)).1
  have hstate : (chain [part .state (anyOf stateForms), blanks, textEnd]).first next
      ⟨[' ', 'e', 'b', ' ', 'o', 't', ' '] ++ before, c :: u⟩ parts = some x := by
    have hmem := mem_ways_state h.mem h.foldCase ([' ', 'e', 'b', ' ', 'o', 't', ' '] ++ before) [] parts
    rw [List.append_nil] at hmem
    rw [first_last rfl .state h.last_not_blank hmem next]
    exact hx
  have hbe : (leading (word "be")).first
      ((chain [part .state (anyOf stateForms)]).first ((chain [blanks, textEnd]).first next))
      ⟨[' ', 'o', 't', ' '] ++ before, 'b' :: 'e' :: ' ' :: c :: u⟩ parts = some x := by
    have hword : (word "be").ways ⟨[' ', 'o', 't', ' '] ++ before, 'b' :: 'e' :: ' ' :: c :: u⟩ parts =
      [(⟨['e', 'b', ' ', 'o', 't', ' '] ++ before, ' ' :: c :: u⟩, parts)] := rfl
    refine first_either_of_some ?_
    rw [first, first_of_ways hword, first_of_ways (ways_gap hc _ _ _)]
    exact hstate
  have hto : (word "to").ways ⟨' ' :: before, 't' :: 'o' :: ' ' :: 'b' :: 'e' :: ' ' :: c :: u⟩ parts =
      [(⟨['o', 't', ' '] ++ before, ' ' :: 'b' :: 'e' :: ' ' :: c :: u⟩, parts)] := rfl
  have htext : toBe (c :: u) =
      ' ' :: 't' :: 'o' :: ' ' :: 'b' :: 'e' :: ' ' :: c :: u := rfl
  rw [waitEnding, first_chain_cons, htext]
  refine first_either_of_some ?_
  rw [first_chain_cons, first_of_ways (ways_gap rfl _ _ _), first_chain_cons]
  refine first_either_of_some (first_either_of_some ?_)
  rw [first_chain_cons, first_of_ways hto, first_chain_cons]
  exact (first_of_ways (ways_gap rfl _ _ _) _).trans hbe

theorem ways_waitEnding (tail before u : List Char) (parts : Parts Part) :
    (chain waitEnding).ways ⟨before, u ++ '"' :: tail⟩ parts = [] :=
  ways_of_not_reads [optional (chain [gap, optional (anyOf becoming),
    part .state (anyOf stateForms)]), blanks] (c := '"') rfl (by simp)

theorem ways_waitOn (s ending : List Char) :
    (chain [blanks, word "wait", gap, oneOf ["for", "until"], gap]).ways
      (Place.start (waitOn s ending)) [] =
    [(⟨[' ', 'r', 'o', 'f', ' ', 't', 'i', 'a', 'W'], inQuotes s ++ ending⟩, [])] := rfl

section

variable {s : List Char}

theorem waitFor_eq : Form.waitFor =
    chain ([blanks, word "wait", gap, oneOf ["for", "until"], gap] ++
      part .target shortText :: waitEnding) := rfl

theorem match?_waitOn_nil (hline : '\n' ∉ s) : ∃ f, Form.waitFor.match? (waitOn s []) = some f ∧
    f.part .target = inQuotes s ∧ f.part .state = [] := by
  have hread := Place.upTo_append [' ', 'r', 'o', 'f', ' ', 't', 'i', 'a', 'W'] (inQuotes s) []
  rw [match?, matchAt?, waitFor_eq, first_chain_append, first_of_ways (ways_waitOn s []),
    first_quoted hline (ways_waitEnding []) rfl]
  refine ⟨_, rfl, ?_, rfl⟩
  simp only [Found.part_self, hread]

theorem match?_waitOn_toBe (hline : '\n' ∉ s) {t : List Char} {w : String} {state : ElementState}
    (h : NamesState t w state) : ∃ f, Form.waitFor.match? (waitOn s (toBe t)) = some f ∧
    f.part .target = inQuotes s ∧ f.part .state = t := by
  have hread := Place.upTo_append [' ', 'r', 'o', 'f', ' ', 't', 'i', 'a', 'W'] (inQuotes s) (toBe t)
  rw [match?, matchAt?, waitFor_eq, first_chain_append, first_of_ways (ways_waitOn s (toBe t)),
    first_quoted hline (ways_waitEnding (toBe t)) (first_toBe h _ _ _ rfl)]
  refine ⟨_, rfl, ?_, ?_⟩
  · have hne : (Part.state == Part.target) = false := rfl
    simp only [Found.part_of_ne hne, Found.part_self, hread]
  · simp only [Found.part_self, Place.upTo_toEnd]

end

theorem waitFor?_waitOn (s ending : List Char) : waitFor? (waitOn s ending) =
    (Form.waitFor.match? (waitOn s ending)).map fun f =>
      .waitFor (operand (f.part .target)) (stateOf (f.part .state)) := by
  have hduration : Form.duration.match? (waitOn s ending) = none := rfl
  rw [waitFor?, matches?, hduration]
  cases Form.waitFor.match? (waitOn s ending) <;> rfl

theorem normalized_waitOn {s ending : List Char}
    (hending : ∀ c ∈ ending.getLast?, isBlank c = false ∧ isFinalMark c = false) :
    normalized (waitOn s ending) = waitOn s ending := by
  refine normalized_eq_self rfl ?_ ?_
  · intro c hc
    obtain rfl : 'W' = c := by simpa [waitOn] using hc
    rfl
  · intro c hc
    rw [waitOn, ← List.append_assoc, List.getLast?_append, List.getLast?_append,
      getLast?_inQuotes] at hc
    rcases hlast : ending.getLast? with _ | d
    · rw [hlast] at hc
      obtain rfl : '"' = c := by simpa using hc
      exact ⟨rfl, rfl⟩
    · rw [hlast] at hc
      obtain rfl : d = c := by simpa using hc
      exact hending d hlast

theorem classify_waitOn (rules : Rules) {s ending : List Char} {target : Target}
    {state : ElementState}
    (hending : ∀ c ∈ ending.getLast?, isBlank c = false ∧ isFinalMark c = false)
    (h : waitFor? (waitOn s ending) = some (.waitFor target state)) :
    classify rules (String.ofList (waitOn s ending)) = .waitFor target state := by
  have hstore : store? (waitOn s ending) = none := store?_eq_none rfl
  have hload : pageLoad? (waitOn s ending) = none := pageLoad?_eq_none rfl
  have hnormal : normalized (waitOn s ending) = waitOn s ending := normalized_waitOn hending
  refine classify_of_plain ?_ ?_ ?_ ?_ <;> rw [hnormal]
  · exact List.cons_ne_nil _ _
  · exact hstore
  · rfl
  · simp only [plainAction?, List.findSome?_cons, hload, h]

/-! ## Stores -/

/-- The words before a quoted source. -/
def storeWords : List Char :=
  ['S', 't', 'o', 'r', 'e', ' ', 't', 'e', 'x', 't', ' ', 'f', 'r', 'o', 'm', ' ']

/-- What names the variable of a store. -/
def asName (name : List Char) : List Char := [' ', 'a', 's', ' '] ++ inQuotes name

/-- The sentence that stores a text under a name. -/
def storeFrom (s name : List Char) : List Char := storeWords ++ (inQuotes s ++ asName name)

theorem first_storeLead (s : List Char) (next : Place → Parts Part → Option α) {x : α}
    (hx : next ⟨storeWords.reverse, '"' :: s⟩ [] = some x) :
    (chain storeLead).first next (Place.start (storeWords ++ '"' :: s)) [] = some x := by
  have hlead : storeLead = [blanks, oneOf storeVerbs, gap] ++ [leading (word "the"),
    leading (oneOf ["text", "value", "content"]), leading (oneOf ["of", "from", "in"])] := rfl
  have hverb : (chain [blanks, oneOf storeVerbs, gap]).ways (Place.start (storeWords ++ '"' :: s)) [] =
      [(⟨(storeWords.take 6).reverse, storeWords.drop 6 ++ '"' :: s⟩, [])] := rfl
  have hthe : (leading (word "the")).ways
        ⟨(storeWords.take 6).reverse, storeWords.drop 6 ++ '"' :: s⟩ [] =
      [(⟨(storeWords.take 6).reverse, storeWords.drop 6 ++ '"' :: s⟩, [])] := rfl
  have htext : ((leading (oneOf ["text", "value", "content"])).ways
        ⟨(storeWords.take 6).reverse, storeWords.drop 6 ++ '"' :: s⟩ []).head? =
      some (⟨(storeWords.take 11).reverse, storeWords.drop 11 ++ '"' :: s⟩, []) := rfl
  have hfrom : ((leading (oneOf ["of", "from", "in"])).ways
        ⟨(storeWords.take 11).reverse, storeWords.drop 11 ++ '"' :: s⟩ []).head? =
      some (⟨storeWords.reverse, '"' :: s⟩, []) := rfl
  rw [hlead, first_chain_append, first_of_ways hverb, first_chain_cons, first_of_ways hthe,
    first_chain_cons]
  exact first_of_head htext (first_of_head hfrom hx)

theorem ways_naming (before name : List Char) (parts : Parts Part) :
    (chain naming).ways ⟨before, asName name⟩ parts =
      [(⟨[' ', 's', 'a', ' '] ++ before, inQuotes name⟩, parts)] := rfl

section

variable {s name : List Char}

/-- The rest of a store does not begin within a quoted text: it would have to pass the closing mark
before the name. -/
theorem ways_storeEnding (hname : isName name = true) (before u : List Char) (parts : Parts Part) :
    (chain (naming ++ nameEnding)).ways ⟨before, u ++ '"' :: asName name⟩ parts = [] := by
  refine List.eq_nil_iff_forall_not_mem.mpr fun r hr => ?_
  have htext : (⟨before, u ++ '"' :: asName name⟩ : Place).text =
      (before.reverse ++ (u ++ ['"', ' ', 'a', 's'])) ++ ' ' :: inQuotes name := by
    simp [Place.text, asName]
  obtain ⟨m, hm, hafter, -⟩ := name_of_mem_ways rfl (List.cons_ne_nil _ _) (not_blank_of_inQuotes hname)
    htext hr
  obtain ⟨t, hread, -, ht⟩ := read_of_mem_ways hm
  have hbefore : t = u ++ '"' :: [' ', 'a', 's', ' '] := by
    have hsplit : u ++ '"' :: asName name = t ++ inQuotes name := hread.trans (congrArg (t ++ ·) hafter)
    have hwhole : t ++ inQuotes name = (u ++ '"' :: [' ', 'a', 's', ' ']) ++ inQuotes name := by
      rw [← hsplit]
      simp [asName]
    exact List.append_cancel_right hwhole
  have hmark : (chain naming).reads '"' = false := rfl
  rw [ht '"' (by simp [hbefore])] at hmark
  cases hmark

theorem match?_storeFrom (hline : '\n' ∉ s) (hname : isName name = true) :
    ∃ f, Form.store.match? (storeFrom s name) = some f ∧ f.part .source = inQuotes s ∧
      f.part .name = inQuotes name := by
  have hread := Place.upTo_append storeWords.reverse (inQuotes s) (asName name)
  have hlast : ∀ c ∈ (inQuotes name).getLast?, isBlank c = false :=
    fun c hc => not_blank_of_inQuotes hname c (List.mem_of_getLast? hc)
  have hending : ∀ (before : List Char) (parts : Parts Part)
      (next : Place → Parts Part → Option (Found Part)),
      (chain (naming ++ nameEnding)).first next ⟨before, asName name⟩ parts =
        next ⟨(inQuotes name).reverse ++ ([' ', 's', 'a', ' '] ++ before), []⟩
          ((.name, ⟨[' ', 's', 'a', ' '] ++ before, inQuotes name⟩,
            ⟨(inQuotes name).reverse ++ ([' ', 's', 'a', ' '] ++ before), []⟩) :: parts) := by
    intro before parts next
    rw [first_chain_append, first_of_ways (ways_naming before name parts)]
    refine first_last rfl .name hlast ?_ next
    refine mem_ways_run.mpr ⟨inQuotes name, List.cons_ne_nil _ _, ?_, rfl, ?_, rfl⟩
    · exact (List.append_nil _).symm
    · intro c hc
      rw [not_blank_of_inQuotes hname c hc]
      rfl
  have hmatch := first_storeLead (s ++ ['"'] ++ asName name)
    ((chain (part .source shortText :: (naming ++ nameEnding))).first fun end_ parts =>
      some ⟨Place.start (storeFrom s name), end_, parts⟩)
    (first_quoted hline (ways_storeEnding hname) (hending _ _ _))
  obtain ⟨f, hf, hsource⟩ : ∃ f, Form.store.match? (storeFrom s name) = some f ∧
      f.part .source = inQuotes s := by
    rw [match?, matchAt?, store_eq, first_chain_append]
    refine ⟨_, hmatch, ?_⟩
    have hne : (Part.name == Part.source) = false := rfl
    simp only [Found.part_of_ne hne, Found.part_self, hread]
  have htext : storeFrom s name =
      (storeWords ++ (inQuotes s ++ [' ', 'a', 's'])) ++ ' ' :: inQuotes name := by
    simp [storeFrom, asName]
  exact ⟨f, hf, hsource,
    part_name_of_match rfl (List.cons_ne_nil _ _) (not_blank_of_inQuotes hname) (htext ▸ hf)⟩

theorem store?_storeFrom (hline : '\n' ∉ s) (hname : isName name = true) :
    store? (storeFrom s name) = some (.store (operand (inQuotes s)) (String.ofList name)) := by
  obtain ⟨f, hf, hsource, hpart⟩ := match?_storeFrom hline hname
  rw [store?, hf]
  simp only [Option.bind_eq_bind, Option.bind_some, hsource, hpart, nameIn_inQuotes hname, hname,
    if_true]

theorem normalized_storeFrom (s name : List Char) :
    normalized (storeFrom s name) = storeFrom s name := by
  refine normalized_eq_self rfl ?_ ?_
  · intro c hc
    obtain rfl : 'S' = c := by simpa [storeFrom, storeWords] using hc
    rfl
  · intro c hc
    rw [storeFrom, asName, ← List.append_assoc, ← List.append_assoc, List.getLast?_append,
      getLast?_inQuotes, Option.some_or] at hc
    obtain rfl : '"' = c := by simpa using hc
    exact ⟨rfl, rfl⟩

theorem classify_storeFrom (rules : Rules) (hline : '\n' ∉ s) (hname : isName name = true) :
    classify rules (String.ofList (storeFrom s name)) =
      .store (operand (inQuotes s)) (String.ofList name) := by
  refine classify_of_store ?_ ?_ <;> rw [normalized_storeFrom]
  · exact List.cons_ne_nil _ _
  · exact store?_storeFrom hline hname

end

/-! ## Every sentence about a quoted text -/

/-- A text between double quotes. -/
def quoted (text : String) : String := "\"" ++ text ++ "\""

theorem ofList_inQuotes (text : String) : String.ofList (inQuotes text.toList) = quoted text := by
  rw [← String.toList_inj]
  simp [inQuotes, quoted]

theorem ofList_append_inQuotes {lead : List Char} (words : String) (h : words.toList = lead)
    (text : String) : String.ofList (lead ++ inQuotes text.toList) = words ++ quoted text := by
  rw [String.ofList_append, ofList_inQuotes, ← h, String.ofList_toList]

theorem ofList_waitOn (text : String) (ending : List Char) :
    String.ofList (waitOn text.toList ending) =
      "Wait for " ++ quoted text ++ String.ofList ending := by
  rw [waitOn, ← List.append_assoc, String.ofList_append,
    ofList_append_inQuotes "Wait for " (by decide)]

theorem ofList_toBe (word : String) : String.ofList (toBe word.toList) = " to be " ++ word := by
  rw [toBe, String.ofList_append, String.ofList_toList]

theorem ofList_storeFrom (text name : String) :
    String.ofList (storeFrom text.toList name.toList) =
      "Store text from " ++ quoted text ++ " as " ++ quoted name := by
  rw [storeFrom, asName, ← List.append_assoc, ← List.append_assoc, String.ofList_append,
    String.ofList_append, ofList_append_inQuotes "Store text from " (by decide),
    ofList_inQuotes]

theorem locatorEngine?_eq_none {s : List Char}
    (h : ∀ engine ∈ locatorEngines, ¬engine.toList <+: s.map lower) : locatorEngine? s = none := by
  refine List.find?_eq_none.mpr fun engine hengine => ?_
  rw [startsWith, List.isPrefixOf_iff_prefix]
  exact h engine hengine

/-- A text between double quotes on one line, when it is no locator, is what a click, a check, a wait
or a store is about, with its marks; its locators are those of the text without them. -/
theorem quoted_operand_literal (rules : Rules) (stop : StopWords) {text : String}
    (hline : '\n' ∉ text.toList)
    (hplain : ∀ engine ∈ locatorEngines, ¬engine.toList <+: (trim text).toList.map lower) :
    classify rules ("Click " ++ quoted text) = .click (.implied (quoted text)) ∧
    classify rules ("Verify " ++ quoted text) = .verify (.implied (quoted text)) ∧
    classify rules ("Wait for " ++ quoted text) = .waitFor (.implied (quoted text)) .visible ∧
    (∀ word w state, (w, state) ∈ stateWords → lowered word = w →
      classify rules ("Wait for " ++ quoted text ++ " to be " ++ word) =
        .waitFor (.implied (quoted text)) state) ∧
    (∀ name, isName name.toList = true →
      classify rules ("Store text from " ++ quoted text ++ " as " ++ quoted name) =
        .store (.implied (quoted text)) name) ∧
    ∀ kind, stop.sanitize (quoted text) kind = trim text ∧
      stop.resolver (quoted text) kind = candidates (trim text) kind := by
  have htarget : operand (inQuotes text.toList) = .implied (quoted text) := by
    rw [operand_inQuotes _ (toList_trim text ▸ locatorEngine?_eq_none hplain), ofList_inQuotes]
  have hsanitize : ∀ kind, stop.sanitize (quoted text) kind = trim text := by
    intro kind
    rw [← ofList_inQuotes, StopWords.sanitize_inQuotes]
    rfl
  refine ⟨?_, ?_, ?_, ?_, ?_, ?_⟩
  · rw [← htarget, ← classify_clickOn text.toList rules hline, clickOn,
      ofList_append_inQuotes "Click " (by decide)]
  · have hcheck : String.ofList (check text.toList) = "Verify " ++ quoted text :=
      ofList_append_inQuotes "Verify " (by decide) text
    rw [← htarget, ← hcheck]
    exact (classify_check text.toList rules).trans (if_neg hline)
  · obtain ⟨f, hf, htext, hstate⟩ := match?_waitOn_nil hline
    have hwait : waitFor? (waitOn text.toList []) =
        some (.waitFor (operand (inQuotes text.toList)) .visible) := by
      rw [waitFor?_waitOn, hf, Option.map_some, htext, hstate]
      rfl
    rw [← htarget, ← classify_waitOn rules (by simp) hwait, ofList_waitOn]
    rw [String.ofList_nil, String.append_empty]
  · intro word w state hmem hword
    have hnames : NamesState word.toList w state := ⟨hmem, by rw [← hword, lowered, String.toList_ofList]⟩
    obtain ⟨f, hf, htext, hstate⟩ := match?_waitOn_toBe hline hnames
    have hwait : waitFor? (waitOn text.toList (toBe word.toList)) =
        some (.waitFor (operand (inQuotes text.toList)) state) := by
      rw [waitFor?_waitOn, hf, Option.map_some, htext, hstate, hnames.stateOf]
    rw [← htarget, ← classify_waitOn rules hnames.last_of_toBe hwait, ofList_waitOn, ofList_toBe,
      ← String.append_assoc]
  · intro name hname
    have hstore := classify_storeFrom rules hline hname
    rwa [ofList_storeFrom, String.ofList_toList, htarget] at hstore
  · intro kind
    exact ⟨hsanitize kind, by rw [StopWords.resolver, hsanitize]⟩

/-- Marks, the words of other sentences, a joint, a state and stop words at both ends stay within the
quotation marks. -/
theorem quoted_operand_literal_keywords :
    let rules : Rules := { maxDepth := 8, usualPause := ⟨0⟩ }
    let stop : StopWords :=
      { click := ["the"], fill := [], verify := ["the", "visible"], store := ["the"], wait := ["visible"] }
    let text := "the \"x\" as y, then is visible"
    classify rules ("Store text from " ++ quoted text ++ " as " ++ quoted "n-1") =
        .store (.implied (quoted text)) "n-1" ∧
      classify rules ("Wait for " ++ quoted text ++ " to be " ++ "GONE") =
        .waitFor (.implied (quoted text)) .hidden ∧
      stop.sanitize (quoted text) .verify = "the \"x\" as y, then is visible" := by
  intro rules stop text
  have hline : '\n' ∉ text.toList := by decide +kernel
  have htrim : trim text = text := by decide +kernel
  obtain ⟨-, -, -, hwait, hstore, hsanitize⟩ :=
    quoted_operand_literal rules stop hline (by rw [htrim]; decide +kernel)
  refine ⟨hstore "n-1" (by decide), hwait "GONE" "gone" .hidden (by decide) (by decide), ?_⟩
  exact (hsanitize .verify).1.trans htrim

end PlainSteps.Sentence
