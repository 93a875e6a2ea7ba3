import PlainSteps.Proofs.PhraseWaits
import PlainSteps.Proofs.PresencePhrases
import PlainSteps.Proofs.QuotedSegments

/-!
# Ways to check a phrase

Four sentences ask for one and the same check of a phrase, whatever words and marks the phrase holds:
with the phrase after the verb, with `is visible` or `is displayed on the page` after it, and in the words
of a user (`classify_checks`).

No form but that of a check is read over them (`OnlyChecks`). What the form takes for the target is all that
follows its lead (`head?_ways_verb`, `head?_ways_that`), because the word `that` and a gap do not begin the
phrase. Of the target, the phrase is kept: it ends in no phrase about presence itself, and what ends in a
letter is no quotation (`withoutPresence_eq_self_iff`, `withoutPresence_isVisible`).
-/

namespace PlainSteps.Sentence

open Pattern Form Text

/-! ## Sentences that are checks -/

/-- Of the forms up to that of a check, none is read over the sentence, and no number stands before it. -/
structure OnlyChecks (s : List Char) : Prop where
  numbering : Form.numbering.match? s = none
  store : Form.store.match? s = none
  conditional : Form.conditional.match? s = none
  pageLoad : Form.pageLoad.match? s = none
  duration : Form.duration.match? s = none
  waitFor : Form.waitFor.match? s = none
  click : Form.click.match? s = none
  fill : Form.fill.match? s = none
  navigate : Form.navigate.match? s = none

theorem OnlyChecks.classify {s : List Char} (h : OnlyChecks s)
    (hfirst : ∀ c ∈ s.head?, isBlank c = false)
    (hlast : ∀ c ∈ s.getLast?, isBlank c = false ∧ isFinalMark c = false) {action : Action}
    (hverify : verify? s = some action) (rules : Rules) :
    classify rules (String.ofList s) = action := by
  have hnormal : normalized s = s := normalized_eq_self h.numbering hfirst hlast
  have hclick : click? s = none := by
    rw [click?, h.click]
    rfl
  have hfill : fill? s = none := by
    rw [fill?, h.fill]
    rfl
  have hnavigate : navigate? s = none := by
    rw [navigate?, h.navigate]
    rfl
  refine classify_of_plain ?_ ?_ ?_ ?_
  · rw [hnormal]
    rintro rfl
    have hnone : verify? [] = none := rfl
    rw [hnone] at hverify
    cases hverify
  · rw [hnormal]
    exact store?_eq_none h.store
  · rw [hnormal]
    exact h.conditional
  · simp only [hnormal, plainAction?, List.findSome?_cons, pageLoad?_eq_none h.pageLoad,
      waitFor?_eq_none h.duration h.waitFor, hclick, hfill, hnavigate, hverify]

/-- The forms of a check are read over the sentence up to its target. -/
def HasTarget (s target : List Char) : Prop :=
  ∃ f, [Form.verify, Form.shouldSee, Form.shouldBe].findSome? (·.match? s) = some f ∧
    f.part .target = target

theorem verify?_of_target {s target kept : List Char} (hform : HasTarget s target)
    (htrim : trimmed target = target)
    (hkept : (if isQuotation target = true then target else withoutPresence target) = kept)
    (hne : trimmed kept ≠ []) : verify? s = some (.verify (operand kept)) := by
  obtain ⟨f, hf, rfl⟩ := hform
  have hsome : ¬(trimmed kept).isEmpty = true := by simpa using hne
  rw [verify?, hf]
  simp only [Option.bind_eq_bind, Option.bind_some, htrim, hkept, if_neg hsome]

/-! ## Leads -/

def verbs : List String := ["verify", "check", "assert", "expect", "ensure", "confirm", "validate"]

/-- What stands before the target of a check. -/
def verifyLead : List Form := [blanks, oneOf verbs, optional (both gap (word "that")), gap]

theorem verify_eq : Form.verify = chain (verifyLead ++ [part .target longText, textEnd]) := rfl

theorem lower_eq_foldCase {c : Char} (hs : foldCase c ≠ 's') (hk : foldCase c ≠ 'k') :
    lower c = foldCase c := by
  by_cases hcapital : 'A' ≤ c ∧ c ≤ 'Z'
  · rw [lower, foldCase, if_pos hcapital, if_pos hcapital]
  · rw [foldCase, if_neg hcapital] at hs hk ⊢
    have hlong : c ≠ 'ſ' := fun h => hs (if_pos h)
    rw [if_neg hlong] at hk ⊢
    have hkelvin : c ≠ Char.ofNat 0x212A := fun h => hk (if_pos h)
    rw [if_neg hkelvin, lower, if_neg hcapital]

/-- The first word of a text, in lower case. -/
def firstWord (s : List Char) : Option String :=
  (words s).head?.map fun w => lowered (String.ofList w)

theorem firstWord_of_that {w g t : List Char} (hw : w.map foldCase = "that".toList) (hg : IsGap g) :
    firstWord (w ++ (g ++ t)) = some "that" := by
  obtain ⟨b, g, rfl⟩ := List.exists_cons_of_ne_nil hg.1
  have hletters : ∀ c ∈ w, isBlank c = false ∧ lower c = foldCase c := by
    intro c hc
    have hfold : foldCase c ∈ "that".toList := hw ▸ List.mem_map_of_mem hc
    simp only [String.reduceToList, List.mem_cons, List.not_mem_nil, or_false] at hfold
    constructor
    · apply not_blank_of_foldCase
      rcases hfold with h | h | h | h <;> rw [h] <;> rfl
    · apply lower_eq_foldCase <;> rcases hfold with h | h | h | h <;> rw [h] <;> decide
  have hne : w ≠ [] := by
    rintro rfl
    cases hw
  have hlower : w.map lower = "that".toList := by
    rw [← hw]
    exact List.map_congr_left fun c hc => (hletters c hc).2
  rw [firstWord, List.cons_append, words_append_blank (hg.2 b List.mem_cons_self),
    words_of_unbroken hne fun c hc => (hletters c hc).1, List.singleton_append, List.head?_cons,
    Option.map_some, lowered, String.toList_ofList, hlower, String.ofList_toList]

theorem firstWord_append {s : List Char} (hs : words s ≠ []) (e : List Char) :
    firstWord (s ++ ' ' :: e) = firstWord s := by
  rw [firstWord, words_append_blank rfl, List.head?_append_of_ne_nil _ hs, firstWord]

section

variable {text before s : List Char}

theorem head?_ways_verb (h : IsPhrase s) (hthat : firstWord s ≠ some "that")
    (hverb : (chain [blanks, oneOf verbs]).ways (Place.start text) [] =
      [(⟨before, ' ' :: s⟩, [])]) :
    ((chain verifyLead).ways (Place.start text) []).head? = some (⟨' ' :: before, s⟩, []) := by
  obtain ⟨c, u, rfl⟩ := List.exists_cons_of_ne_nil h.ne_nil
  have hc : isBlank c = false := h.first c rfl
  have hnone : ((both gap (word "that")).ways ⟨before, ' ' :: c :: u⟩ []).flatMap
      (fun r => (chain [gap]).ways r.1 r.2) = [] := by
    refine List.flatMap_eq_nil_iff.mpr fun r hr => List.eq_nil_iff_forall_not_mem.mpr fun q hq => ?_
    obtain ⟨m, hm, hword⟩ := mem_ways_both.mp hr
    rw [ways_gap hc, List.mem_singleton] at hm
    subst hm
    obtain ⟨w, hafter, -, hw⟩ := mem_ways_letters hword
    obtain ⟨g, hgap, hg⟩ := gap_of_mem_ways hq
    rw [show c :: u = w ++ (g ++ q.1.after) by rw [← hgap]; exact hafter] at hthat
    exact hthat (firstWord_of_that hw hg)
  have hlead := ways_chain_append [blanks, oneOf verbs] [optional (both gap (word "that")), gap]
    (Place.start text) []
  rw [hverb, List.flatMap_singleton, ways_chain_cons] at hlead
  have hoptional : (optional (both gap (word "that"))).ways ⟨before, ' ' :: c :: u⟩ [] =
      (both gap (word "that")).ways ⟨before, ' ' :: c :: u⟩ [] ++ [(⟨before, ' ' :: c :: u⟩, [])] := rfl
  rw [hoptional, List.flatMap_append, hnone, List.nil_append, List.flatMap_singleton] at hlead
  show ((chain ([blanks, oneOf verbs] ++ [optional (both gap (word "that")), gap])).ways
    (Place.start text) []).head? = _
  rw [hlead]
  exact congrArg List.head? (ways_gap hc before u [])

theorem head?_ways_that {c : Char} (hc : isBlank c = false) {others : List (Place × Parts Part)}
    (hthat : (chain [blanks, oneOf verbs, optional (both gap (word "that"))]).ways (Place.start text) [] =
      (⟨before, ' ' :: c :: s⟩, []) :: others) :
    ((chain verifyLead).ways (Place.start text) []).head? = some (⟨' ' :: before, c :: s⟩, []) := by
  have hlead := ways_chain_append [blanks, oneOf verbs, optional (both gap (word "that"))] [gap]
    (Place.start text) []
  have hgap : (chain [gap]).ways ⟨before, ' ' :: c :: s⟩ [] = [(⟨' ' :: before, c :: s⟩, [])] :=
    ways_gap hc before s []
  rw [hthat, List.flatMap_cons, hgap] at hlead
  show ((chain ([blanks, oneOf verbs, optional (both gap (word "that"))] ++ [gap])).ways
    (Place.start text) []).head? = _
  rw [hlead]
  rfl

theorem hasTarget_of_head (hline : s.all onLine = true) (hne : s ≠ [])
    (hlead : ((chain verifyLead).ways (Place.start text) []).head? = some (⟨before, s⟩, [])) :
    HasTarget text s := by
  obtain ⟨f, hf, htarget⟩ := match?_toEnd_of_head .target hlead hne hline
  rw [← verify_eq] at hf
  exact ⟨f, by rw [List.findSome?_cons, hf], htarget⟩

end

/-! ## The four sentences -/

theorem kept_of_letter {s e : List Char} {c : Char} (hc : e.getLast? = some c) (hletter : isAsciiLetter c = true)
    (hcut : withoutPresence (s ++ e) = s) :
    (if isQuotation (s ++ e) = true then s ++ e else withoutPresence (s ++ e)) = s := by
  have hlast : (s ++ e).getLast? = some c := List.mem_getLast?_append_of_mem_getLast? hc
  have hspan : ¬isQuotation (s ++ e) = true := by
    rw [isQuotation_iff]
    intro hspan
    generalize s ++ e = t at hlast hspan
    obtain ⟨hmark⟩ := hspan
    rename_i opening closing inner
    have hclosing : closing = c := by
      rw [← List.cons_append, List.getLast?_concat] at hlast
      exact Option.some.inj hlast
    have hall : ∀ m ∈ markPairs, isAsciiLetter m.2 = false := by decide
    have hnot := hall _ (closingMark?_eq_some_iff.mp hmark)
    rw [hclosing, hletter] at hnot
    cases hnot
  rw [if_neg hspan, hcut]

section

variable {s e : List Char} (h : IsPhrase s)

include h

theorem IsPhrase.trimmed_eq : trimmed s = s := trimmed_eq_self h.first h.last

theorem IsPhrase.all_onLine : s.all onLine = true := List.all_eq_true.mpr h.line

theorem IsPhrase.append (hline : e.all onLine = true) {c : Char} (hc : e.getLast? = some c)
    (hletter : isAsciiLetter c = true) : IsPhrase (s ++ e) := by
  refine ⟨List.append_ne_nil_of_left_ne_nil h.ne_nil e, fun d hd => ?_, fun d hd => ?_,
    last_append hc (letter_spec hletter).1 s⟩
  · exact (List.mem_append.mp hd).elim (h.line d) (List.all_eq_true.mp hline d)
  · rw [List.head?_append_of_ne_nil _ h.ne_nil] at hd
    exact h.first d hd

theorem IsPhrase.kept (hends : ¬EndsInPhrase s) :
    (if isQuotation s = true then s else withoutPresence s) = s := by
  rw [(withoutPresence_eq_self_iff h.last).mpr hends, ite_self]

theorem classify_of_lead (rules : Rules) {lead target : List Char} (htarget : IsPhrase target)
    (honly : OnlyChecks (lead ++ target)) (hlead : lead.head?.map isBlank = some false)
    (hform : HasTarget (lead ++ target) target)
    (hmark : ∀ c ∈ target.getLast?, isFinalMark c = false)
    (hkept : (if isQuotation target = true then target else withoutPresence target) = s) :
    classify rules (String.ofList (lead ++ target)) = .verify (operand s) := by
  have htrimmed : trimmed s ≠ [] := by
    rw [h.trimmed_eq]
    exact h.ne_nil
  refine honly.classify ?_ ?_ (verify?_of_target hform htarget.trimmed_eq hkept htrimmed) rules
  · obtain ⟨b, hb, hblank⟩ := Option.map_eq_some_iff.mp hlead
    rw [List.head?_append, hb]
    rintro c ⟨rfl⟩
    exact hblank
  · intro c hc
    rw [List.getLast?_append_of_ne_nil _ htarget.ne_nil] at hc
    exact ⟨htarget.last c hc, hmark c hc⟩

theorem classify_verify (rules : Rules) (hmark : ∀ c ∈ s.getLast?, isFinalMark c = false)
    (hends : ¬EndsInPhrase s) (hthat : firstWord s ≠ some "that") :
    classify rules (String.ofList ("Verify ".toList ++ s)) = .verify (operand s) := by
  have hverb : (chain [blanks, oneOf verbs]).ways (Place.start ("Verify ".toList ++ s)) [] =
      [(⟨"yfireV".toList, ' ' :: s⟩, [])] := rfl
  refine classify_of_lead h rules h ?_ rfl
    (hasTarget_of_head h.all_onLine h.ne_nil (head?_ways_verb h hthat hverb)) hmark (h.kept hends)
  constructor <;> rfl

theorem classify_verifyThat (rules : Rules) (hmark : ∀ c ∈ s.getLast?, isFinalMark c = false)
    (hends : ¬EndsInPhrase s) :
    classify rules (String.ofList ("Verify THAT ".toList ++ s)) = .verify (operand s) := by
  refine classify_of_lead h rules h ?_ rfl ?_ hmark (h.kept hends)
  · constructor <;> rfl
  · obtain ⟨c, u, rfl⟩ := List.exists_cons_of_ne_nil h.ne_nil
    have hways : (chain [blanks, oneOf verbs, optional (both gap (word "that"))]).ways
        (Place.start ("Verify THAT ".toList ++ c :: u)) [] =
        [(⟨"TAHT yfireV".toList, ' ' :: c :: u⟩, []),
          (⟨"yfireV".toList, " THAT ".toList ++ c :: u⟩, [])] := rfl
    exact hasTarget_of_head h.all_onLine h.ne_nil (head?_ways_that (h.first c rfl) hways)

theorem classify_checkThat (rules : Rules) :
    classify rules (String.ofList ("Check that ".toList ++ (s ++ " is visible".toList))) =
      .verify (operand s) := by
  have htarget : IsPhrase (s ++ " is visible".toList) := h.append (c := 'e') (by decide) rfl rfl
  have hkept := kept_of_letter (c := 'e') rfl rfl (withoutPresence_isVisible h.last)
  have hmark : ∀ c ∈ (s ++ " is visible".toList).getLast?, isFinalMark c = false :=
    last_append (c := 'e') rfl rfl s
  refine classify_of_lead h rules htarget ?_ rfl ?_ hmark hkept
  · constructor <;> rfl
  · obtain ⟨c, u, rfl⟩ := List.exists_cons_of_ne_nil h.ne_nil
    have hways : (chain [blanks, oneOf verbs, optional (both gap (word "that"))]).ways
        (Place.start ("Check that ".toList ++ (c :: u ++ " is visible".toList))) [] =
        [(⟨"taht kcehC".toList, ' ' :: c :: (u ++ " is visible".toList)⟩, []),
          (⟨"kcehC".toList, " that ".toList ++ (c :: u ++ " is visible".toList)⟩, [])] := rfl
    exact hasTarget_of_head htarget.all_onLine htarget.ne_nil (head?_ways_that (h.first c rfl) hways)

theorem classify_assert (rules : Rules) (hthat : firstWord s ≠ some "that") :
    classify rules (String.ofList ("Assert ".toList ++ (s ++ " is displayed on the page".toList))) =
      .verify (operand s) := by
  have htarget : IsPhrase (s ++ " is displayed on the page".toList) :=
    h.append (c := 'e') (by decide) rfl rfl
  have hkept := kept_of_letter (c := 'e') rfl rfl (withoutPresence_isDisplayed h.last)
  have hmark : ∀ c ∈ (s ++ " is displayed on the page".toList).getLast?, isFinalMark c = false :=
    last_append (c := 'e') rfl rfl s
  have hverb : (chain [blanks, oneOf verbs]).ways
      (Place.start ("Assert ".toList ++ (s ++ " is displayed on the page".toList))) [] =
      [(⟨"tressA".toList, ' ' :: (s ++ " is displayed on the page".toList)⟩, [])] := rfl
  refine classify_of_lead h rules htarget ?_ rfl
    (hasTarget_of_head htarget.all_onLine htarget.ne_nil (head?_ways_verb htarget ?_ hverb)) hmark hkept
  · constructor <;> rfl
  · have hfirst := firstWord_append (words_ne_nil h.ne_nil h.last) "is displayed on the page".toList
    exact hfirst.trans_ne hthat

theorem classify_shouldSee (rules : Rules) (hmark : ∀ c ∈ s.getLast?, isFinalMark c = false)
    (hends : ¬EndsInPhrase s) :
    classify rules (String.ofList ("I should see ".toList ++ s)) = .verify (operand s) := by
  refine classify_of_lead h rules h ?_ rfl ?_ hmark (h.kept hends)
  · constructor <;> rfl
  · obtain ⟨c, u, rfl⟩ := List.exists_cons_of_ne_nil h.ne_nil
    have hsee : (chain [blanks,
        leading (anyOf [word "i", chain [word "the", gap, word "user"], word "user"]),
        word "should", gap, word "see"]).ways (Place.start ("I should see ".toList ++ c :: u)) [] =
        [(⟨"ees dluohs I".toList, ' ' :: c :: u⟩, [])] := rfl
    have hlead := ways_chain_append [blanks,
        leading (anyOf [word "i", chain [word "the", gap, word "user"], word "user"]),
        word "should", gap, word "see"] [gap] (Place.start ("I should see ".toList ++ c :: u)) []
    rw [hsee, List.flatMap_singleton] at hlead
    have hgap := hlead.trans (ways_gap (h.first c rfl) "ees dluohs I".toList u [])
    obtain ⟨f, hf, htarget⟩ := match?_toEnd .target hgap h.ne_nil h.all_onLine
    have hverify : Form.verify.match? ("I should see ".toList ++ c :: u) = none := rfl
    have hform : Form.shouldSee.match? ("I should see ".toList ++ c :: u) = some f := hf
    exact ⟨f, by rw [List.findSome?_cons, hverify, List.findSome?_cons, hform], htarget⟩

end

/-- Four sentences that check a phrase ask for the same, whatever the phrase holds, unless it ends in a
mark or a phrase that is taken off or begins with the word `that`. -/
theorem classify_checks (rules : Rules) {phrase : String} (hne : phrase ≠ "")
    (htrim : trim phrase = phrase) (hline : '\n' ∉ phrase.toList)
    (hmark : ∀ c ∈ phrase.toList.getLast?, isFinalMark c = false) (hends : ¬EndsInPhrase phrase.toList)
    (hthat : firstWord phrase.toList ≠ some "that") :
    classify rules ("Verify " ++ phrase) = .verify (operand phrase.toList) ∧
      classify rules ("Check that " ++ phrase ++ " is visible") = .verify (operand phrase.toList) ∧
      classify rules ("Assert " ++ phrase ++ " is displayed on the page") =
        .verify (operand phrase.toList) ∧
      classify rules ("I should see " ++ phrase) = .verify (operand phrase.toList) := by
  have h := isPhrase_of_trim hne htrim hline
  have htext : ∀ lead ending : String, lead ++ phrase ++ ending =
      String.ofList (lead.toList ++ (phrase.toList ++ ending.toList)) := by
    intro lead ending
    simp only [String.ofList_append, String.ofList_toList, String.append_assoc]
  have hlead : ∀ lead : String, lead ++ phrase = String.ofList (lead.toList ++ phrase.toList) := by
    intro lead
    rw [String.ofList_append, String.ofList_toList, String.ofList_toList]
  refine ⟨?_, ?_, ?_, ?_⟩
  · rw [hlead]
    exact classify_verify h rules hmark hends hthat
  · rw [htext]
    exact classify_checkThat h rules
  · rw [htext]
    exact classify_assert h rules hthat
  · rw [hlead]
    exact classify_shouldSee h rules hmark hends

theorem classify_checks_quoted :
    let rules : Rules := { maxDepth := 8, usualPause := ⟨0⟩ }
    let phrase := "\"that is shown on the page\""
    phrase ≠ "" ∧ trim phrase = phrase ∧ '\n' ∉ phrase.toList ∧
      (∀ c ∈ phrase.toList.getLast?, isFinalMark c = false) ∧ ¬EndsInPhrase phrase.toList ∧
      firstWord phrase.toList ≠ some "that" ∧
      classify rules ("Check that " ++ phrase ++ " is visible") = .verify (operand phrase.toList) := by
  intro rules phrase
  have hlast : phrase.toList.getLast? = some '"' := by decide
  have hmark : ∀ c ∈ phrase.toList.getLast?, isFinalMark c = false := last_append hlast rfl []
  have hends : ¬EndsInPhrase phrase.toList :=
    (withoutPresence_eq_self_iff (last_append hlast rfl [])).mp (by decide)
  exact ⟨by decide, by decide, by decide, hmark, hends, by decide,
    (classify_checks rules (by decide) (by decide) (by decide) hmark hends (by decide)).2.1⟩

/-- The word is taken off in capitals, too: then the sentences ask for different checks. -/
theorem classify_verify_that_capitals :
    let phrase := "THAT banner"
    phrase ≠ "" ∧ trim phrase = phrase ∧ '\n' ∉ phrase.toList ∧
      (∀ c ∈ phrase.toList.getLast?, isFinalMark c = false) ∧ ¬EndsInPhrase phrase.toList ∧
      (wordsOf phrase).head? ≠ some "that" ∧
      ∀ rules, classify rules ("Verify " ++ phrase) ≠ .verify (operand phrase.toList) := by
  intro phrase
  have hlast : phrase.toList.getLast? = some 'r' := by decide
  have hmark : ∀ c ∈ phrase.toList.getLast?, isFinalMark c = false := last_append hlast rfl []
  have hends : ¬EndsInPhrase phrase.toList :=
    (withoutPresence_eq_self_iff (last_append hlast rfl [])).mp (by decide)
  refine ⟨by decide, by decide, by decide, hmark, hends, by decide, fun rules heq => ?_⟩
  have h : IsPhrase "banner".toList := isPhrase_of_trim (by decide) (by decide) (by decide)
  have hends' : ¬EndsInPhrase "banner".toList := by
    rw [← withoutPresence_eq_self_iff h.last]
    decide
  have htext : "Verify " ++ phrase = String.ofList ("Verify THAT ".toList ++ "banner".toList) := by
    decide
  rw [htext, classify_verifyThat h rules (last_append (c := 'r') rfl rfl []) hends', Action.verify.injEq] at heq
  have hne : operand "banner".toList ≠ operand phrase.toList := by decide
  exact hne heq

end PlainSteps.Sentence
