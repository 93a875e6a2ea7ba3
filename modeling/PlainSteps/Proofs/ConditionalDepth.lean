import PlainSteps.Proofs.Classification
import PlainSteps.Proofs.FormWays

/-!
# How deep conditional steps nest

`Sentence.consequence?` is the sentence that a conditional step carries out. It is a proper piece of the
step (`consequence_shorter`): the form has read the word `if` before it reaches the consequence. So one
level of classification is one of two things (`classifyWith_cases`): an action without nesting that does
not depend on the limit, or a conditional step around the action of a shorter sentence, which at the
limit is unknown instead. Everything about limits follows from that by induction on the smaller one:

* `nesting_classifyWithin` : no more conditional steps stand in each other than the limit allows.
* `classifyWithin_cut` : a lower limit cuts the action of a higher one, and changes nothing else.
* `classifyWithin_of_length_le` : beyond the length of the sentence limits make no difference.

`classify_nesting` is all of this for `classify`.
-/

namespace PlainSteps

open Text

namespace Action

/-- How many conditional steps stand in each other. -/
def nesting : Action → Nat
  | conditional _ _ consequence => consequence.nesting + 1
  | _ => 0

/-- The second action is the first with an unknown action in place of a conditional step that stands
inside exactly `depth` others. -/
inductive CutsTo : Nat → Action → Action → Prop where
  | same {depth : Nat} {action : Action} (h : action.nesting = 0) : CutsTo depth action action
  | inside {depth : Nat} {deep shallow : Action} (target : Target) (condition : Condition)
      (h : CutsTo depth deep shallow) :
      CutsTo (depth + 1) (conditional target condition deep) (conditional target condition shallow)
  | tooDeep (target : Target) (condition : Condition) (deep : Action) (text : String) :
      CutsTo 0 (conditional target condition deep) (unknown text)

end Action

namespace Sentence

open Pattern Form

variable {usual : Number.Binary64} {text inner : List Char}

/-! ## The sentence within a conditional step -/

theorem infix_normalized (text : List Char) : normalized text <:+: text := by
  have hstop : ∀ s f, Form.numbering.match? s = some f → f.stop.after <:+ s := by
    intro s f hf
    obtain ⟨r, hr, rfl⟩ := exists_way_of_matchAt? hf
    obtain ⟨t, hafter, -, -⟩ := read_of_mem_ways hr
    exact ⟨t, hafter.symm⟩
  rw [normalized]
  refine (infix_trimmed _).trans ((prefix_dropEndWhile isFinalMark _).isInfix.trans ?_)
  refine List.IsInfix.trans ?_ (infix_trimmed text)
  split
  · rename_i f hf
    exact (hstop _ f hf).isInfix
  · exact List.infix_rfl

/-- What stands before the consequence of a conditional step. -/
def conditionalLead : List Form :=
  [gap, part .condition shortText, gap, leading (oneOf ["is", "are"]),
    part .question (anyOf [stem "exist" "s", word "present", word "visible", word "displayed",
      word "shown", stem "appear" "s"]),
    either (chain [blanks, word ",", blanks, leading (word "then")]) (chain [gap, word "then", gap])]

theorem conditional_eq : Form.conditional =
    chain (blanks :: word "if" :: (conditionalLead ++ [part .consequence longText, textEnd])) := rfl

theorem part_consequence {s : List Char} {f : Found Part}
    (h : Form.conditional.match? s = some f) : ∃ lead, lead ≠ [] ∧ s = lead ++ f.part .consequence := by
  rw [match?, conditional_eq] at h
  obtain ⟨r, hr, rfl⟩ := exists_way_of_matchAt? h
  obtain ⟨m₁, hblanks, hr⟩ := mem_ways_chain_cons.mp hr
  obtain ⟨m₂, hif, hr⟩ := mem_ways_chain_cons.mp hr
  obtain ⟨m₃, hlead, hr⟩ := mem_ways_chain_append.mp hr
  obtain ⟨m₄, hpart, hend⟩ := mem_ways_chain_cons.mp hr
  obtain ⟨m₅, hlong, rfl⟩ := mem_ways_part.mp hpart
  obtain ⟨hnil, rfl⟩ := mem_ways_textEnd.mp hend
  have hconsequence : m₃.1.upTo m₅.1 = m₃.1.after := upTo_of_end hlong hnil
  refine ⟨m₃.1.before.reverse, ?_, ?_⟩
  · obtain ⟨d, hd, -⟩ := last_of_mem_word (by decide) hif
    obtain ⟨u, -, hbefore', -⟩ := read_of_mem_ways hlead
    intro hempty
    rw [List.reverse_eq_nil_iff.mp hempty] at hbefore'
    rw [(List.append_eq_nil_iff.mp hbefore'.symm).2] at hd
    cases hd
  · have htext : m₃.1.text = s :=
      ((text_of_mem_ways hlead).trans (text_of_mem_ways hif)).trans (text_of_mem_ways hblanks)
    rw [Found.part_self, hconsequence]
    exact htext.symm

theorem consequence_shorter (h : consequence? text = some inner) : inner.length < text.length := by
  unfold consequence? at h
  split at h
  · cases h
  · obtain ⟨f, hf, rfl⟩ := Option.map_eq_some_iff.mp h
    obtain ⟨lead, hne, hs⟩ := part_consequence hf
    have hlead := List.length_pos_iff.mpr hne
    have hnormal := (infix_normalized text).length_le
    rw [hs, List.length_append] at hnormal
    omega

/-! ## Limits -/

theorem Simple.nesting {action : Action} (h : Simple action) : action.nesting = 0 := by
  cases h <;> rfl

theorem nesting_classifyWithin (usual : Number.Binary64) (depth : Nat) (text : List Char) :
    (classifyWithin usual depth text).nesting ≤ depth := by
  induction depth generalizing text with
  | zero =>
    rcases classifyWith_cases usual text with ⟨action, hsimple, h⟩ | ⟨_, _, _, _, -, hnone, -⟩
    · rw [classifyWithin, h]
      exact Nat.le_of_eq hsimple.nesting
    · rw [classifyWithin, hnone]
      exact Nat.le_refl 0
  | succ depth ih =>
    rcases classifyWith_cases usual text with ⟨action, hsimple, h⟩ | ⟨_, _, sentence, _, -, -, h⟩
    · rw [classifyWithin, h, hsimple.nesting]
      exact Nat.zero_le _
    · rw [classifyWithin, h]
      exact Nat.succ_le_succ (ih sentence)

/-- The action of a sentence holds the action of the sentence within it, under a lower limit. -/
theorem classifyWithin_conditional {depth : Nat} {target : Target} {condition : Condition}
    {action : Action} (h : classifyWithin usual (depth + 1) text = .conditional target condition action) :
    ∃ sentence, consequence? text = some sentence ∧ action = classifyWithin usual depth sentence := by
  rcases classifyWith_cases usual text with ⟨_, hsimple, hall⟩ | ⟨_, _, sentence, _, hwithin, -, hall⟩
  · rw [classifyWithin, hall] at h
    have hnesting := hsimple.nesting
    rw [h] at hnesting
    cases hnesting
  · rw [classifyWithin, hall] at h
    cases h
    exact ⟨sentence, hwithin, rfl⟩

theorem classifyWithin_cut (usual : Number.Binary64) (depth more : Nat) (text : List Char) :
    (classifyWithin usual (depth + more) text).CutsTo depth (classifyWithin usual depth text) := by
  induction depth generalizing text with
  | zero =>
    rcases classifyWith_cases usual text with ⟨action, hsimple, h⟩ | ⟨_, _, _, _, -, hnone, hsome⟩
    · have hsame : classifyWithin usual (0 + more) text = action := by cases more <;> exact h _
      rw [hsame, classifyWithin, h]
      exact .same hsimple.nesting
    · cases more with
      | zero =>
        rw [Nat.add_zero, classifyWithin, hnone]
        exact .same rfl
      | succ more =>
        rw [Nat.zero_add, classifyWithin, classifyWithin, hnone, hsome]
        exact .tooDeep _ _ _ _
  | succ depth ih =>
    rw [Nat.succ_add, classifyWithin, classifyWithin]
    rcases classifyWith_cases usual text with ⟨action, hsimple, h⟩ | ⟨_, _, sentence, _, -, -, h⟩
    · rw [h, h]
      exact .same hsimple.nesting
    · rw [h, h]
      exact .inside _ _ (ih sentence)

theorem classifyWithin_of_simple {action : Action}
    (h : ∀ inner, classifyWith usual inner text = action) (depth : Nat) :
    classifyWithin usual depth text = action := by
  cases depth <;> exact h _

/-- A limit that no sentence within is long enough to reach makes no difference. -/
theorem classifyWithin_of_length_le {depth depth' : Nat} (h : text.length ≤ depth)
    (h' : text.length ≤ depth') : classifyWithin usual depth text = classifyWithin usual depth' text := by
  induction depth generalizing depth' text with
  | zero =>
    rcases classifyWith_cases usual text with ⟨action, -, hall⟩ | ⟨_, _, sentence, _, hwithin, -, -⟩
    · rw [classifyWithin_of_simple hall, classifyWithin_of_simple hall]
    · have hshorter := consequence_shorter hwithin
      omega
  | succ depth ih =>
    rcases classifyWith_cases usual text with ⟨action, -, hall⟩ | ⟨_, _, sentence, _, hwithin, -, hall⟩
    · rw [classifyWithin_of_simple hall, classifyWithin_of_simple hall]
    · have hshorter := consequence_shorter hwithin
      obtain ⟨lower, rfl⟩ : ∃ lower, depth' = lower + 1 := ⟨depth' - 1, by omega⟩
      have hsame : classifyWithin usual depth sentence = classifyWithin usual lower sentence :=
        ih (by omega) (by omega)
      rw [classifyWithin, classifyWithin, hall, hall, hsame]

/-- What a limit on nesting does: each conditional step holds the action of a shorter sentence under a
limit lower by one, no more of them stand in each other than the limit allows, and a lower limit cuts
what a higher one lets through. -/
theorem classify_nesting (usual : Number.Binary64) (text : String) :
    (∀ sentence, consequence? text.toList = some sentence → sentence.length < text.length) ∧
    (∀ depth target condition action,
      classify ⟨depth + 1, usual⟩ text = .conditional target condition action →
        ∃ sentence, consequence? text.toList = some sentence ∧
          action = classify ⟨depth, usual⟩ (String.ofList sentence)) ∧
    (∀ depth, (classify ⟨depth, usual⟩ text).nesting ≤ depth) ∧
    (∀ depth deeper, depth ≤ deeper →
      (classify ⟨deeper, usual⟩ text).CutsTo depth (classify ⟨depth, usual⟩ text)) ∧
    ∀ depth, text.length ≤ depth →
      classify ⟨depth, usual⟩ text = classify ⟨text.length, usual⟩ text := by
  refine ⟨?_, ?_, ?_, ?_, ?_⟩
  · intro sentence h
    exact consequence_shorter h
  · intro depth target condition action h
    simp only [classify, String.toList_ofList]
    exact classifyWithin_conditional h
  · intro depth
    exact nesting_classifyWithin usual depth text.toList
  · intro depth deeper h
    obtain ⟨more, rfl⟩ := Nat.exists_eq_add_of_le h
    exact classifyWithin_cut usual depth more text.toList
  · intro depth h
    exact classifyWithin_of_length_le h (Nat.le_refl _)

/-- At a lower limit the inner of two conditional steps is unknown, and the outer one is as it was. -/
theorem classify_nesting_popup :
    let text := "2. If the banner is visible, then if \"Popup\" exists, click \"Close\"."
    let banner := Target.implied "the banner"
    let popup := Target.implied "\"Popup\""
    (classify ⟨2, ⟨0⟩⟩ text).CutsTo 1 (classify ⟨1, ⟨0⟩⟩ text) ∧
      classify ⟨2, ⟨0⟩⟩ text = .conditional banner .visible (.conditional popup .present
        (.click (.implied "\"Close\""))) ∧
      classify ⟨1, ⟨0⟩⟩ text =
        .conditional banner .visible (.unknown "if \"Popup\" exists, click \"Close\"") ∧
      (∃ sentence, consequence? text.toList = some sentence ∧ sentence.length < text.length ∧
        .unknown "if \"Popup\" exists, click \"Close\"" =
          classify ⟨0, ⟨0⟩⟩ (String.ofList sentence)) ∧
      classify ⟨100, ⟨0⟩⟩ text = classify ⟨text.length, ⟨0⟩⟩ text := by
  intro text banner popup
  have hone : classify ⟨1, ⟨0⟩⟩ text =
      .conditional banner .visible (.unknown "if \"Popup\" exists, click \"Close\"") := by
    decide +kernel
  obtain ⟨hshorter, hwithin, -, hcut, hlong⟩ := classify_nesting ⟨0⟩ text
  obtain ⟨sentence, hsentence, haction⟩ := hwithin 0 _ _ _ hone
  exact ⟨hcut 1 2 (by decide), by decide +kernel, hone,
    ⟨sentence, hsentence, hshorter sentence hsentence, haction⟩, hlong 100 (by decide)⟩

end Sentence

end PlainSteps
