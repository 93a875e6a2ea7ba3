import PlainSteps.Proofs.CapitalLetters
import PlainSteps.Proofs.DecimalDigits

/-!
# Sentences in capitals

`Sentence.classify_capitals`: a sentence in capitals asks for what the sentence asks for. The action has the
same form at every level, and the texts in it are in capitals; conditions, states and lengths of time are
the same (`Action.inCapitals`). The name of a locator's engine and a scheme that the program adds are not
in the sentence, so they stay in lower case. A scheme is added where the innermost sentence opens a bare
site (`addsScheme`).

One lemma for each form tells what the form gives on a text in capitals (`store?_upper` and its
companions). `classifyWith_upper` puts them together for one level, and the levels follow by induction on
the limit (`classifyWithin_upper`).
-/

namespace PlainSteps

open Text

/-- The action with its texts in capitals. A scheme that was added to an address stays as it is. -/
def Action.inCapitals (schemeAdded : Bool) : Action → Action
  | navigate url => navigate (capitalsAfter (if schemeAdded then "https://".length else 0) url)
  | click target => click target.inCapitals
  | fill value target => fill (capitals value) target.inCapitals
  | store source name => store source.inCapitals (capitals name)
  | conditional target condition consequence =>
    conditional target.inCapitals condition (consequence.inCapitals schemeAdded)
  | waitFor target state => waitFor target.inCapitals state
  | waitForLoad => waitForLoad
  | waitDuration seconds => waitDuration seconds
  | verify target => verify target.inCapitals
  | unknown text => unknown (capitals text)

namespace Sentence

open Pattern Form

/-- The address in the text that names a page: a quoted one, or the first word. -/
def addressIn (s : List Char) : List Char :=
  match Form.quotation.find? (trimmed s) with
  | some q => unquoted q.text
  | none => (words (trimmed s)).headD (trimmed s)

/-- The sentence opens a page whose address has no scheme and is not relative to the site. -/
def opensBareSite (s : List Char) : Bool :=
  (Form.navigate.match? s).any fun f => !isAddress (addressIn (f.part .url))

/-- A scheme is added to the address in the innermost of the sentences in each other. -/
def addsScheme : Nat → List Char → Bool
  | 0, text => opensBareSite (normalized text)
  | depth + 1, text =>
    match consequence? text with
    | some inner => addsScheme depth inner
    | none => opensBareSite (normalized text)

/-! ## Pieces of sentences -/

theorem normalized_upper (s : List Char) : normalized (s.map upper) = (normalized s).map upper := by
  have hfinal : ∀ c, isFinalMark (upper c) = isFinalMark c := fun c => (marks_upper c).2.1
  unfold normalized
  simp only [trimmed_upper, match?_map ignores_numbering.upper]
  cases Form.numbering.match? (trimmed s) with
  | none => simp only [Option.map_none, dropEndWhile_map hfinal, trimmed_upper]
  | some f =>
    simp only [Option.map_some, Found.map, Place.map, dropEndWhile_map hfinal, trimmed_upper]

theorem nameIn_upper (s : List Char) : nameIn (s.map upper) = (nameIn s).map upper := by
  have hbrace : ∀ c, isBrace (upper c) = isBrace c := fun c => (marks_upper c).2.2.1
  rw [nameIn, unquoted_upper, dropWhile_map hbrace, dropEndWhile_map hbrace, nameIn]

theorem conditionOf_upper (question : List Char) :
    conditionOf (question.map upper) = conditionOf question := by
  rw [conditionOf, lowered_upper, conditionOf]

theorem stateOf_upper (word : List Char) : stateOf (word.map upper) = stateOf word := by
  rw [stateOf, lowered_upper, stateOf]

theorem inSeconds_upper (n : Number.Binary64) (unit : List Char) :
    inSeconds n (unit.map upper) = inSeconds n unit := by
  rw [inSeconds, lowered_upper, inSeconds]

theorem not_letter_of_digit {c : Char} (h : isAsciiDigit c = true) : isAsciiLetter c = false := by
  rw [← Bool.not_eq_true']
  exact Number.all_digits (p := fun c => !isAsciiLetter c) (by decide) h

theorem readPlain?_upper (s : List Char) : Number.readPlain? (s.map upper) = Number.readPlain? s := by
  have hpoint : ∀ c, (upper c != '.') = (c != '.') := not_mark_upper rfl
  have hall : ∀ t : List Char, (t.map upper).all isAsciiDigit = t.all isAsciiDigit := by
    intro t
    rw [List.all_map]
    exact congrArg t.all (funext fun c => (marks_upper c).2.2.2.2.2.2)
  have hdigits : ∀ t : List Char, t.all isAsciiDigit = true → t.map upper = t := by
    intro t ht
    have hsame : t.map upper = t.map id := List.map_congr_left fun c hc =>
      upper_eq_self (not_letter_of_digit (List.all_eq_true.mp ht c hc))
    rw [hsame, List.map_id]
  unfold Number.readPlain?
  rw [takeWhile_map hpoint, dropWhile_map hpoint, ← List.map_drop]
  simp only [hall]
  split
  · rename_i h
    rw [Bool.and_eq_true] at h
    rw [hdigits _ h.1, hdigits _ h.2]
  · rfl

theorem isAddress_upper (s : List Char) : isAddress (s.map upper) = isAddress s := by
  have hhead : ((s.map upper).head? == some '/') = (s.head? == some '/') := by
    cases s with
    | nil => rfl
    | cons c s =>
      have hslash : isAsciiLetter '/' = false := rfl
      exact mark_upper hslash c
  rw [isAddress, map_lower_upper, hhead, isAddress]

theorem addressIn_upper (s : List Char) : addressIn (s.map upper) = (addressIn s).map upper := by
  unfold addressIn
  rw [trimmed_upper, find?_map ignores_quotation.upper, words_upper]
  cases Form.quotation.find? (trimmed s) with
  | some q => simp only [Option.map_some, Found.text_map, unquoted_upper]
  | none =>
    simp only [Option.map_none]
    cases words (trimmed s) <;> rfl

theorem withoutPresence_upper (s : List Char) :
    withoutPresence (s.map upper) = (withoutPresence s).map upper := by
  rw [withoutPresence, find?_map ignores_trailingPresence.upper, withoutPresence]
  cases Form.trailingPresence.find? s with
  | none => rfl
  | some f => simp only [Option.map_some, Found.map, Place.map, List.map_append, List.map_reverse]

/-! ## Forms with their actions -/

theorem findSome?_of_map {α β : Type} {ps : List α} {f g : α → Option β} {m : β → β}
    (h : ∀ p ∈ ps, f p = (g p).map m) : ps.findSome? f = (ps.findSome? g).map m := by
  induction ps with
  | nil => rfl
  | cons p ps ih =>
    obtain ⟨hp, hps⟩ := List.forall_mem_cons.mp h
    rw [List.findSome?_cons, List.findSome?_cons, hp, ih hps]
    cases g p <;> rfl

theorem findSome?_match?_upper {ps : List Form} (hps : ∀ p ∈ ps, p.Ignores lower) (s : List Char) :
    ps.findSome? (·.match? (s.map upper)) = (ps.findSome? (·.match? s)).map (·.map upper) :=
  findSome?_of_map fun p hp => match?_map (hps p hp).upper s

section

variable (schemeAdded : Bool) (s : List Char)

theorem store?_upper : store? (s.map upper) = (store? s).map (·.inCapitals schemeAdded) := by
  rw [store?, match?_map ignores_store.upper, store?]
  cases Form.store.match? s with
  | none => rfl
  | some f =>
    simp only [Option.map_some, Option.bind_eq_bind, Option.bind_some, Found.part_map, nameIn_upper,
      isName_upper, operand_upper]
    split
    · simp only [Option.map_some, Action.inCapitals, capitals_ofList]
    · rfl

theorem pageLoad?_upper : pageLoad? (s.map upper) = (pageLoad? s).map (·.inCapitals schemeAdded) := by
  rw [pageLoad?, matches?_map ignores_pageLoad.upper, pageLoad?]
  split <;> rfl

theorem waitFor?_upper : waitFor? (s.map upper) = (waitFor? s).map (·.inCapitals schemeAdded) := by
  rw [waitFor?, matches?_map ignores_duration.upper, match?_map ignores_waitFor.upper, waitFor?]
  split
  · rfl
  · cases Form.waitFor.match? s with
    | none => rfl
    | some f =>
      simp only [Option.map_some, Option.bind_eq_bind, Option.bind_some, Found.part_map, operand_upper,
        stateOf_upper, Action.inCapitals]

theorem click?_upper : click? (s.map upper) = (click? s).map (·.inCapitals schemeAdded) := by
  rw [click?, match?_map ignores_click.upper, click?]
  cases Form.click.match? s with
  | none => rfl
  | some f =>
    simp only [Option.map_some, Option.bind_eq_bind, Option.bind_some, Found.part_map, operand_upper,
      Action.inCapitals]

theorem fill?_upper : fill? (s.map upper) = (fill? s).map (·.inCapitals schemeAdded) := by
  have horders : ∀ b : Bool, ∀ p ∈ (if b then [Form.fillWith, Form.fillInto]
      else [Form.fillInto, Form.fillWith]), p.Ignores lower := by
    intro b
    cases b
    · exact List.forall_mem_cons.mpr ⟨ignores_fillInto, List.forall_mem_singleton.mpr ignores_fillWith⟩
    · exact List.forall_mem_cons.mpr ⟨ignores_fillWith, List.forall_mem_singleton.mpr ignores_fillInto⟩
  rw [fill?, match?_map ignores_fill.upper, fill?]
  cases Form.fill.match? s with
  | none => rfl
  | some f =>
    simp only [Option.map_some, Option.bind_eq_bind, Option.bind_some, Found.part_map, map_lower_upper,
      findSome?_match?_upper (horders _)]
    generalize List.findSome? _ _ = found
    cases found with
    | none => rfl
    | some g =>
      simp only [Option.map_some, Option.bind_some, Found.part_map, operand_upper, unquoted_upper,
        Action.inCapitals, capitals_ofList]

theorem navigate?_eq : navigate? s = (Form.navigate.match? s).bind fun f =>
    (address? (addressIn (f.part .url))).map fun url => .navigate (String.ofList url) := by
  unfold navigate? addressIn
  cases Form.navigate.match? s with
  | none => rfl
  | some f =>
    simp only [Option.bind_eq_bind, Option.bind_some]
    generalize address? _ = url
    cases url <;> rfl

theorem navigate?_upper :
    navigate? (s.map upper) = (navigate? s).map (·.inCapitals (opensBareSite s)) := by
  rw [navigate?_eq, navigate?_eq, match?_map ignores_navigate.upper, opensBareSite]
  cases Form.navigate.match? s with
  | none => rfl
  | some f =>
    simp only [Option.map_some, Option.bind_some, Option.any_some, Found.part_map, addressIn_upper]
    generalize addressIn (f.part .url) = address
    simp only [address?, isAddress_upper, matches?_map ignores_domain.upper]
    by_cases hwhole : isAddress address = true
    · have hcapitals := capitals_ofList address
      rw [capitals] at hcapitals
      simp only [hwhole, if_true, Option.map_some, Action.inCapitals, Bool.not_true, Bool.false_eq_true,
        if_false, hcapitals]
    · simp only [if_neg hwhole]
      split
      · simp only [Option.map_some, Action.inCapitals, hwhole, Bool.not_false, if_true,
          String.ofList_append, String.ofList_toList, capitalsAfter_append]
      · rfl

theorem verify?_upper : verify? (s.map upper) = (verify? s).map (·.inCapitals schemeAdded) := by
  have hforms : ∀ p ∈ [Form.verify, Form.shouldSee, Form.shouldBe], p.Ignores lower :=
    List.forall_mem_cons.mpr ⟨ignores_verify, List.forall_mem_cons.mpr
      ⟨ignores_shouldSee, List.forall_mem_singleton.mpr ignores_shouldBe⟩⟩
  rw [verify?, findSome?_match?_upper hforms, verify?]
  generalize List.findSome? _ _ = found
  cases found with
  | none => rfl
  | some f =>
    have htarget : (if isQuotation ((trimmed (f.part .target)).map upper) = true
        then (trimmed (f.part .target)).map upper
        else withoutPresence ((trimmed (f.part .target)).map upper)) =
        (if isQuotation (trimmed (f.part .target)) = true then trimmed (f.part .target)
          else withoutPresence (trimmed (f.part .target))).map upper := by
      rw [isQuotation_upper, withoutPresence_upper, apply_ite (List.map upper)]
    simp only [Option.map_some, Option.bind_eq_bind, Option.bind_some, Found.part_map, trimmed_upper,
      htarget, operand_upper, List.isEmpty_map]
    generalize (if isQuotation (trimmed (f.part .target)) = true then trimmed (f.part .target)
      else withoutPresence (trimmed (f.part .target))) = target
    split <;> rfl

theorem pause?_upper (usual : Number.Binary64) :
    pause? usual (s.map upper) = (pause? usual s).map (·.inCapitals schemeAdded) := by
  rw [pause?, match?_map ignores_duration.upper, matches?_map ignores_bareWait.upper, pause?]
  cases Form.duration.match? s with
  | none =>
    simp only [Option.map_none]
    split <;> rfl
  | some f =>
    simp only [Option.map_some, Found.part_map, readPlain?_upper, inSeconds_upper, Option.map_map]
    rfl

end

/-! ## Classification -/

theorem plainAction?_upper (usual : Number.Binary64) (s : List Char) :
    plainAction? usual (s.map upper) =
      (plainAction? usual s).map (·.inCapitals (opensBareSite s)) := by
  refine findSome?_of_map fun form hform => ?_
  simp only [List.mem_cons, List.not_mem_nil, or_false] at hform
  rcases hform with rfl | rfl | rfl | rfl | rfl | rfl | rfl
  · exact pageLoad?_upper _ s
  · exact waitFor?_upper _ s
  · exact click?_upper _ s
  · exact fill?_upper _ s
  · exact navigate?_upper s
  · exact verify?_upper _ s
  · exact pause?_upper _ s usual

/-- One level of classification, given what the level below gives on the sentence within. -/
theorem classifyWith_upper (usual : Number.Binary64) {inner : Option (List Char → Action)}
    {text : List Char} {schemeAdded : Bool}
    (hinner : ∀ classify ∈ inner, ∀ s, consequence? text = some s →
      classify (s.map upper) = (classify s).inCapitals schemeAdded)
    (hplain : consequence? text = none → schemeAdded = opensBareSite (normalized text)) :
    classifyWith usual inner (text.map upper) =
      (classifyWith usual inner text).inCapitals schemeAdded := by
  unfold classifyWith
  simp only [normalized_upper, List.isEmpty_map, store?_upper schemeAdded,
    match?_map ignores_conditional.upper, trimmed_upper, plainAction?_upper]
  by_cases hempty : (normalized text).isEmpty = true
  · simp only [if_pos hempty, Action.inCapitals, capitals_ofList]
  · simp only [if_neg hempty]
    cases hstore : store? (normalized text) with
    | some action => rfl
    | none =>
      simp only [Option.map_none]
      have hconsequence : consequence? text =
          (Form.conditional.match? (normalized text)).map (·.part .consequence) := by
        rw [consequence?, hstore]
        rfl
      cases hform : Form.conditional.match? (normalized text) with
      | some f =>
        rw [hform, Option.map_some] at hconsequence
        cases inner with
        | none => simp only [Option.map_some, Action.inCapitals, capitals_ofList]
        | some classify =>
          simp only [Option.map_some, Found.part_map, operand_upper, conditionOf_upper, Action.inCapitals,
            hinner classify rfl _ hconsequence]
      | none =>
        rw [hform, Option.map_none] at hconsequence
        simp only [Option.map_none, hplain hconsequence]
        cases plainAction? usual (normalized text) with
        | some action => rfl
        | none => simp only [Option.map_none, Option.getD_none, Action.inCapitals, capitals_ofList]

theorem classifyWithin_upper (usual : Number.Binary64) (depth : Nat) (text : List Char) :
    classifyWithin usual depth (text.map upper) =
      (classifyWithin usual depth text).inCapitals (addsScheme depth text) := by
  induction depth generalizing text with
  | zero => exact classifyWith_upper usual (fun _ h => nomatch h) fun _ => rfl
  | succ depth ih =>
    refine classifyWith_upper usual ?_ fun hnone => ?_
    · rintro classify ⟨rfl⟩ s hs
      rw [addsScheme, hs]
      exact ih s
    · rw [addsScheme, hnone]

/-- A sentence in capitals asks for what the sentence asks for, with the texts in its action in capitals.
What the program puts into an action, the engine of a locator in lower case and the scheme of a bare
site, stays as it is. -/
theorem classify_capitals (rules : Rules) (text : String) :
    classify rules (capitals text) =
      (classify rules text).inCapitals (addsScheme rules.maxDepth text.toList) := by
  rw [classify, toList_capitals]
  exact classifyWithin_upper rules.usualPause rules.maxDepth text.toList

end Sentence

end PlainSteps
