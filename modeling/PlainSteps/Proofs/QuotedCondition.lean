import PlainSteps.Proofs.ConditionEnds
import PlainSteps.Proofs.QuotedFill

/-!
# Conditions on a quoted text

`Sentence.conditional_quoted`: a conditional sentence on a text between double quotes is about the whole
text and carries out the step that is written after it, if and only if nothing within the text ends a
condition (`HoldsEnd`) and the text is no locator.

* After the closing mark the words are read in one way up to the end (`first_conditionRest`); the word
  `then` after a comma does not belong to the step (`first_then_toEnd`).
* The form does not stop at the closing mark, so the target is the shortest text after which it goes on
  (`match?_onCondition`).
* What ends a condition holds no mark, so within the quoted text the form goes on only where the text
  itself holds an end (`afterCondition_eq_none`). Without one the target is the quoted text
  (`match?_question`), and with one it is a piece that lacks the closing mark (`match?_holdsEnd`).
-/

namespace PlainSteps.Sentence

open Pattern Form Text

variable {α : Type}

/-! ## What follows a comma -/

/-- A text without the word `then` and the gap after it at its start. -/
def withoutThen (s : List Char) : List Char :=
  if (s.take 4).map foldCase = "then".toList ∧ (s.drop 4).head?.any isBlank = true then
    (s.drop 4).dropWhile isBlank
  else s

theorem ways_then_eq_nil {s : List Char}
    (h : ¬((s.take 4).map foldCase = "then".toList ∧ (s.drop 4).head?.any isBlank = true))
    (before : List Char) (parts : Parts Part) : (both (word "then") gap).ways ⟨before, s⟩ parts = [] := by
  refine List.eq_nil_iff_forall_not_mem.mpr fun r hr => h ?_
  obtain ⟨m, hword, hgap⟩ := mem_ways_both.mp hr
  obtain ⟨t, hafter, -, ht⟩ := mem_ways_letters hword
  obtain ⟨g, hafter', hne, hblank⟩ := gap_of_mem_ways hgap
  obtain ⟨c, g, rfl⟩ := List.exists_cons_of_ne_nil hne
  have hlength : t.length = 4 := by simpa using congrArg List.length ht
  obtain rfl : s = t ++ m.1.after := hafter
  rw [List.take_left' hlength, List.drop_left' hlength, hafter']
  exact ⟨ht, by simpa using hblank c List.mem_cons_self⟩

theorem withoutThen_split {s : List Char}
    (h : (s.take 4).map foldCase = "then".toList ∧ (s.drop 4).head?.any isBlank = true) :
    ∃ t g, s = t ++ (g ++ withoutThen s) ∧ t.map foldCase = "then".toList ∧ IsGap g ∧
      ∀ c ∈ (withoutThen s).head?, isBlank c = false := by
  have hrest : withoutThen s = (s.drop 4).dropWhile isBlank := if_pos h
  have hblanks : ∀ c ∈ (s.drop 4).takeWhile isBlank, isBlank c = true :=
    fun c hc => List.mem_takeWhile_imp hc
  refine ⟨s.take 4, (s.drop 4).takeWhile isBlank, ?_, h.1, ⟨?_, hblanks⟩, ?_⟩
  · rw [hrest, List.takeWhile_append_dropWhile, List.take_append_drop]
  · obtain ⟨c, hc, hblank⟩ := (Option.any_eq_true _ _).mp h.2
    obtain ⟨u, hu⟩ := List.head?_eq_some_iff.mp hc
    rw [hu, List.takeWhile_cons_of_pos hblank]
    exact List.cons_ne_nil _ _
  · intro c hc
    rw [hrest] at hc
    have hnot := List.head?_dropWhile_not isBlank (s.drop 4)
    rw [hc] at hnot
    simpa using hnot

theorem first_then_toEnd {s : List Char} (hs : s ≠ []) (hlast : ∀ c ∈ s.getLast?, isBlank c = false)
    (hline : s.all onLine = true) (f : Place → Parts Part → α) (before : List Char)
    (parts : Parts Part) : ∃ p q, p.upTo q = withoutThen s ∧
      (chain [leading (word "then"), part .consequence longText, textEnd]).first
        (fun end_ parts => some (f end_ parts)) ⟨before, s⟩ parts =
        some (f q ((.consequence, p, q) :: parts)) := by
  have hform : (chain [leading (word "then"), part .consequence longText, textEnd]).first
      (fun end_ parts => some (f end_ parts)) ⟨before, s⟩ parts =
      (either (both (word "then") gap) nothing).first ((chain [part .consequence longText, textEnd]).first
        fun end_ parts => some (f end_ parts)) ⟨before, s⟩ parts := rfl
  rw [hform]
  by_cases hthen : (s.take 4).map foldCase = "then".toList ∧ (s.drop 4).head?.any isBlank = true
  · obtain ⟨t, g, hsplit, ht, hg, hfirst⟩ := withoutThen_split hthen
    have hword : (word "then").ways ⟨before, s⟩ parts =
        [(⟨t.reverse ++ before, g ++ withoutThen s⟩, parts)] := by
      have hletters := ways_letters ht before (g ++ withoutThen s) parts
      rwa [← hsplit] at hletters
    -- the last character is no blank, so something follows the gap
    have hne : withoutThen s ≠ [] := by
      intro hnil
      rw [hnil, List.append_nil] at hsplit
      have hend : s.getLast? = some (g.getLast hg.1) := by
        rw [hsplit, List.getLast?_append, List.getLast?_eq_some_getLast hg.1, Option.some_or]
      have hblank := hg.2 _ (List.getLast_mem hg.1)
      rw [hlast _ hend] at hblank
      cases hblank
    have hrest : (withoutThen s).all onLine = true := by
      rw [hsplit, List.all_append, List.all_append, Bool.and_eq_true, Bool.and_eq_true] at hline
      exact hline.2.2
    refine ⟨_, _, Place.upTo_toEnd (g.reverse ++ (t.reverse ++ before)) _, first_either_of_some ?_⟩
    rw [first, first_of_ways hword]
    exact first_of_head (head?_ways_gap hg hfirst _ _) (first_toEnd_of_line .consequence hne hrest _ _ parts)
  · have hnone : (both (word "then") gap).first ((chain [part .consequence longText, textEnd]).first
        fun end_ parts => some (f end_ parts)) ⟨before, s⟩ parts = none := by
      rw [first_eq_findSome, ways_then_eq_nil hthen, List.findSome?_nil]
    have hwhole : withoutThen s = s := if_neg hthen
    refine ⟨_, _, (Place.upTo_toEnd before s).trans hwhole.symm, ?_⟩
    rw [first, hnone]
    exact first_toEnd_of_line .consequence hs hline _ before parts

/-! ## After a quoted text -/

def copulas : List String := ["", "is ", "are "]

def conditionJoints : List String := [" then ", ", "]

/-- What a conditional step carries out: the step, after a comma without the word `then`. -/
def consequence (joint step : String) : String :=
  if joint = ", " then String.ofList (withoutThen step.toList) else step

/-- What a condition on a quoted text asks, with the step that depends on it. -/
def question (copula word joint step : String) : List Char :=
  ' ' :: (copula.toList ++ (word.toList ++ (joint.toList ++ step.toList)))

theorem head?_presence {word : String} {condition : Condition}
    (hword : (word, condition) ∈ presenceWords) {c : Char} (hc : c = ' ' ∨ c = ',')
    (before s : List Char) (parts : Parts Part) :
    ((anyOf presenceForms).ways ⟨before, word.toList ++ c :: s⟩ parts).head? =
      some (⟨word.toList.reverse ++ before, c :: s⟩, parts) := by
  simp only [presenceWords, List.mem_cons, List.not_mem_nil, or_false, Prod.mk.injEq] at hword
  rcases hc with rfl | rfl
  all_goals
    rcases hword with ⟨rfl, -⟩ | ⟨rfl, -⟩ | ⟨rfl, -⟩ | ⟨rfl, -⟩ | ⟨rfl, -⟩ | ⟨rfl, -⟩ | ⟨rfl, -⟩ | ⟨rfl, -⟩
    all_goals rfl

theorem head?_copula {copula word : String} {condition : Condition} (hcopula : copula ∈ copulas)
    (hword : (word, condition) ∈ presenceWords) (before s : List Char) (parts : Parts Part) :
    ((both gap (leading (oneOf ["is", "are"]))).ways
        ⟨before, ' ' :: (copula.toList ++ (word.toList ++ s))⟩ parts).head? =
      some (⟨copula.toList.reverse ++ ' ' :: before, word.toList ++ s⟩, parts) := by
  simp only [copulas, List.mem_cons, List.not_mem_nil, or_false] at hcopula
  simp only [presenceWords, List.mem_cons, List.not_mem_nil, or_false, Prod.mk.injEq] at hword
  rcases hcopula with rfl | rfl | rfl
  all_goals
    rcases hword with ⟨rfl, -⟩ | ⟨rfl, -⟩ | ⟨rfl, -⟩ | ⟨rfl, -⟩ | ⟨rfl, -⟩ | ⟨rfl, -⟩ | ⟨rfl, -⟩ | ⟨rfl, -⟩
    all_goals rfl

theorem first_asking {copula word : String} {condition : Condition} (hcopula : copula ∈ copulas)
    (hword : (word, condition) ∈ presenceWords) {c : Char} (hc : c = ' ' ∨ c = ',')
    (before s : List Char) (parts : Parts Part) : ∃ p b, p.upTo ⟨b, c :: s⟩ = word.toList ∧
      ∀ (next : Place → Parts Part → Option α) (x : α),
        next ⟨b, c :: s⟩ ((.question, p, ⟨b, c :: s⟩) :: parts) = some x →
        (chain asking).first next ⟨before, ' ' :: (copula.toList ++ (word.toList ++ c :: s))⟩ parts =
          some x := by
  refine ⟨_, _, Place.upTo_append (copula.toList.reverse ++ ' ' :: before) word.toList (c :: s), ?_⟩
  intro next x hx
  have hpresence : (part .question (anyOf presenceForms)).first next
      ⟨copula.toList.reverse ++ ' ' :: before, word.toList ++ c :: s⟩ parts = some x :=
    first_of_head (head?_presence hword hc _ _ _) hx
  exact first_of_head (head?_copula hcopula hword before (c :: s) parts) hpresence

/-- The text of a step: one line that is not empty, without blanks around it and without punctuation
at its end. -/
structure IsStep (step : String) : Prop where
  ne_nil : step.toList ≠ []
  trim_eq : trim step = step
  line : '\n' ∉ step.toList
  unmarked : ∀ c ∈ step.toList.getLast?, isFinalMark c = false

namespace IsStep

variable {step : String} (h : IsStep step)

include h

theorem first : ∀ c ∈ step.toList.head?, isBlank c = false := by
  intro c hc
  rw [← h.trim_eq, toList_trim] at hc
  exact not_blank_of_head_trimmed hc

theorem last : ∀ c ∈ step.toList.getLast?, isBlank c = false := by
  intro c hc
  rw [← h.trim_eq, toList_trim] at hc
  exact not_blank_of_last_trimmed hc

theorem all_onLine : step.toList.all onLine = true := by
  refine List.all_eq_true.mpr fun c hc => bne_iff_ne.mpr ?_
  rintro rfl
  exact h.line hc

end IsStep

theorem first_joining {joint step : String} (hjoint : joint ∈ conditionJoints) (hstep : IsStep step)
    (f : Place → Parts Part → α) (before : List Char) (parts : Parts Part) :
    ∃ p q, p.upTo q = (consequence joint step).toList ∧
      (chain (joining :: [part .consequence longText, textEnd])).first
        (fun end_ parts => some (f end_ parts)) ⟨before, joint.toList ++ step.toList⟩ parts =
        some (f q ((.consequence, p, q) :: parts)) := by
  have hline := hstep.all_onLine
  have hne := hstep.ne_nil
  obtain ⟨c, s, hs⟩ := List.exists_cons_of_ne_nil hne
  have hc : isBlank c = false := hstep.first c (by rw [hs]; rfl)
  simp only [conditionJoints, List.mem_cons, List.not_mem_nil, or_false] at hjoint
  rw [first_chain_cons]
  rcases hjoint with rfl | rfl
  · have hcomma : (chain [blanks, word ",", blanks, leading (word "then")]).first
        ((chain [part .consequence longText, textEnd]).first fun end_ parts => some (f end_ parts))
        ⟨before, " then ".toList ++ step.toList⟩ parts = none := rfl
    have hthen : (word "then").ways ⟨' ' :: before, 't' :: 'h' :: 'e' :: 'n' :: ' ' :: c :: s⟩ parts =
        [(⟨['n', 'e', 'h', 't', ' '] ++ before, ' ' :: c :: s⟩, parts)] := rfl
    refine ⟨_, _, Place.upTo_toEnd ([' ', 'n', 'e', 'h', 't', ' '] ++ before) step.toList, ?_⟩
    rw [joining, first, hcomma, hs]
    change (chain [gap, word "then", gap]).first _
      ⟨before, ' ' :: 't' :: 'h' :: 'e' :: 'n' :: ' ' :: c :: s⟩ _ = _
    rw [first_chain_cons, first_of_ways (ways_gap rfl _ _ _), first_chain_cons, first_of_ways hthen]
    refine (first_of_ways (ways_gap hc _ _ _) _).trans ?_
    rw [hs] at hline hne
    exact first_toEnd_of_line .consequence hne hline _ _ parts
  · obtain ⟨p, q, hread, hfirst⟩ := first_then_toEnd hne hstep.last hline f ([' ', ','] ++ before) parts
    refine ⟨p, q, ?_, first_either_of_some ?_⟩
    · rw [hread, consequence, if_pos rfl, String.toList_ofList]
    · have hspace : isBlank ' ' = true := rfl
      have hnoblank : blanks.ways ⟨before, ',' :: ' ' :: c :: s⟩ parts =
          [(⟨before, ',' :: ' ' :: c :: s⟩, parts)] := rfl
      have hcomma : (word ",").ways ⟨before, ',' :: ' ' :: c :: s⟩ parts =
          [(⟨',' :: before, ' ' :: c :: s⟩, parts)] := rfl
      have hblank : (blanks.ways ⟨',' :: before, ' ' :: c :: s⟩ parts).head? =
          some (⟨[' ', ','] ++ before, c :: s⟩, parts) := by
        simp [blanks, ways, reachable, hspace, hc]
      rw [hs] at hfirst ⊢
      change (chain [blanks, word ",", blanks, leading (word "then")]).first _
        ⟨before, ',' :: ' ' :: c :: s⟩ _ = _
      rw [first_chain_cons, first_of_ways hnoblank, first_chain_cons, first_of_ways hcomma,
        first_chain_cons]
      exact first_of_head hblank hfirst

theorem first_conditionRest {copula word joint step : String} {condition : Condition}
    (hcopula : copula ∈ copulas) (hword : (word, condition) ∈ presenceWords)
    (hjoint : joint ∈ conditionJoints) (hstep : IsStep step) (f : Place → Parts Part → α)
    (before : List Char) (parts : Parts Part) : ∃ p q p' q', p.upTo q = word.toList ∧
      p'.upTo q' = (consequence joint step).toList ∧
      (chain conditionRest).first (fun end_ parts => some (f end_ parts))
        ⟨before, question copula word joint step⟩ parts =
        some (f q' ((.consequence, p', q') :: (.question, p, q) :: parts)) := by
  obtain ⟨c, s, hc, hs⟩ : ∃ c s, (c = ' ' ∨ c = ',') ∧ joint.toList ++ step.toList = c :: s := by
    simp only [conditionJoints, List.mem_cons, List.not_mem_nil, or_false] at hjoint
    rcases hjoint with rfl | rfl
    · exact ⟨' ', _, .inl rfl, rfl⟩
    · exact ⟨',', _, .inr rfl, rfl⟩
  obtain ⟨p, b, hread, hasking⟩ := first_asking hcopula hword hc before s parts
  obtain ⟨p', q', hread', hjoining⟩ :=
    first_joining hjoint hstep f b ((.question, p, ⟨b, c :: s⟩) :: parts)
  rw [hs] at hjoining
  refine ⟨p, _, p', q', hread, hread', ?_⟩
  rw [conditionRest, first_chain_append, question, hs]
  exact hasking _ _ hjoining

/-! ## The condition of a sentence -/

/-- A sentence on a condition about a quoted text. -/
def onCondition (s tail : List Char) : List Char := 'I' :: 'f' :: ' ' :: '"' :: (s ++ '"' :: tail)

/-- How the form of a condition goes on after the target. -/
def afterCondition (text : List Char) (a : Place) : Option (Found Part) :=
  (chain conditionRest).first (fun end_ parts => some ⟨Place.start text, end_, parts⟩) a
    [(.condition, ⟨[' ', 'f', 'I'], text.drop 3⟩, a)]

/-- The target of a condition is the shortest text after which the form goes on: it does not stop at
the closing mark. -/
theorem match?_onCondition (s tail : List Char) : Form.conditional.match? (onCondition s tail) =
    tryFew onLine (afterCondition (onCondition s tail)) ['"', ' ', 'f', 'I'] (s ++ '"' :: tail) := by
  have hlead : (chain [blanks, word "if", gap]).ways (Place.start (onCondition s tail)) [] =
      [(⟨[' ', 'f', 'I'], '"' :: (s ++ '"' :: tail)⟩, [])] := rfl
  rw [match?, matchAt?, conditional_eq_rest, first_chain_append, first_of_ways hlead, first_chain_cons]
  rfl

section afterCondition

variable {a : Place} {parts : Parts Part} {text : List Char} {g : Found Part}

theorem endsCondition_of_afterCondition (h : afterCondition text a = some g) :
    ∃ e s, a.after = e ++ s ∧ EndsCondition e := by
  obtain ⟨r, hr, -⟩ := mem_of_first_some h
  exact endsCondition_of_mem_ways hr

theorem condition_of_afterCondition {u r : List Char} (htext : text.drop 3 = u ++ r)
    (h : afterCondition text ⟨u.reverse ++ [' ', 'f', 'I'], r⟩ = some g) : g.part .condition = u := by
  obtain ⟨m, hm, rfl⟩ := mem_of_first_some h
  obtain ⟨e, e', hparts⟩ := parts_of_mem_conditionRest hm
  have hconsequence : (Part.consequence == Part.condition) = false := rfl
  have hquestion : (Part.question == Part.condition) = false := rfl
  have hread := Place.upTo_append [' ', 'f', 'I'] u r
  simp only [Found.part, Found.part?, hparts, List.find?_cons, hconsequence, hquestion,
    beq_self_eq_true, Option.map_some, Option.getD_some, htext, hread]

theorem exists_afterCondition {e s : List Char} (he : EndsCondition e) (hs : s ≠ [])
    (hline : s.all onLine = true) (text before : List Char) :
    ∃ g, afterCondition text ⟨before, e ++ s⟩ = some g :=
  exists_first_some (exists_mem_ways_conditionRest he hs hline before _) _

end afterCondition

theorem prefix_of_notMem {e s u v : List α} {c : α} (hc : c ∉ e) (h : u ++ c :: v = e ++ s) :
    e <+: u := by
  rcases List.append_eq_append_iff.mp h with ⟨w, rfl, hw⟩ | ⟨w, rfl, -⟩
  · cases w with
    | nil => exact ⟨[], by simp⟩
    | cons d w =>
      obtain ⟨rfl, -⟩ := List.cons.inj hw
      exact absurd (List.mem_append_right u List.mem_cons_self) hc
  · exact List.prefix_append e w

section onCondition

variable {s tail : List Char}

theorem afterCondition_eq_none (hnone : ¬HoldsEnd s) {text before u v : List Char}
    (hsplit : s = u ++ v) : afterCondition text ⟨before, v ++ '"' :: tail⟩ = none := by
  cases h : afterCondition text ⟨before, v ++ '"' :: tail⟩ with
  | none => rfl
  | some g =>
    obtain ⟨e, r, hafter, he⟩ := endsCondition_of_afterCondition h
    have hwithin : e <:+: s :=
      (prefix_of_notMem he.notMem hafter).isInfix.trans (hsplit ▸ (List.suffix_append u v).isInfix)
    exact absurd ⟨e, he, hwithin⟩ hnone

theorem match?_of_afterCondition (hs : '\n' ∉ s) (hnone : ¬HoldsEnd s) {g : Found Part}
    (h : afterCondition (onCondition s tail) ⟨(inQuotes s).reverse ++ [' ', 'f', 'I'], tail⟩ = some g) :
    Form.conditional.match? (onCondition s tail) = some g ∧ g.part .condition = inQuotes s := by
  have hline : ∀ c ∈ s ++ ['"'], onLine c = true := by
    intro c hc
    refine bne_iff_ne.mpr ?_
    rintro rfl
    exact hs (by simpa using hc)
  have hwithin : ∀ u v, s ++ ['"'] = u ++ v → v ≠ [] →
      afterCondition (onCondition s tail) ⟨u.reverse ++ ['"', ' ', 'f', 'I'], v ++ tail⟩ = none := by
    intro u v huv hv
    obtain ⟨v, d, rfl⟩ := (List.eq_nil_or_concat v).resolve_left hv
    rw [List.concat_eq_append, ← List.append_assoc] at huv
    obtain ⟨hsplit, hmark⟩ := List.append_inj' huv rfl
    obtain ⟨rfl, -⟩ := List.cons.inj hmark
    rw [List.concat_eq_append, List.append_assoc, List.singleton_append]
    exact afterCondition_eq_none hnone hsplit
  have hsplit : s ++ '"' :: tail = (s ++ ['"']) ++ tail := by simp
  have hreverse : (s ++ ['"']).reverse ++ ['"', ' ', 'f', 'I'] =
      (inQuotes s).reverse ++ [' ', 'f', 'I'] := by
    simp [inQuotes]
  constructor
  · rw [match?_onCondition, hsplit, tryFew_append hline _ _ hwithin, hreverse]
    exact tryFew_of_some h
  · exact condition_of_afterCondition (by simp [onCondition, inQuotes]) h

theorem match?_question (hs : '\n' ∉ s) (hnone : ¬HoldsEnd s) {copula word joint step : String}
    {condition : Condition} (hcopula : copula ∈ copulas) (hword : (word, condition) ∈ presenceWords)
    (hjoint : joint ∈ conditionJoints) (hstep : IsStep step) :
    ∃ g, Form.conditional.match? (onCondition s (question copula word joint step)) = some g ∧
      g.part .condition = inQuotes s ∧ g.part .question = word.toList ∧
      g.part .consequence = (consequence joint step).toList := by
  obtain ⟨p, b, p', b', hword', hstep', hrest⟩ := first_conditionRest hcopula hword hjoint hstep
    (fun end_ parts =>
      (⟨Place.start (onCondition s (question copula word joint step)), end_, parts⟩ : Found Part))
    ((inQuotes s).reverse ++ [' ', 'f', 'I'])
    [(.condition, ⟨[' ', 'f', 'I'], (onCondition s (question copula word joint step)).drop 3⟩,
      ⟨(inQuotes s).reverse ++ [' ', 'f', 'I'], question copula word joint step⟩)]
  obtain ⟨hmatch, htarget⟩ := match?_of_afterCondition hs hnone hrest
  exact ⟨_, hmatch, htarget, hword', hstep'⟩

/-- The target of a condition on a quoted text that holds an end of a condition does not reach the
closing mark. -/
theorem match?_holdsEnd (hline : (s ++ '"' :: tail).all onLine = true) (h : HoldsEnd s) :
    ∃ g, Form.conditional.match? (onCondition s tail) = some g ∧
      ∃ u, g.part .condition = '"' :: u ∧ u <+: s := by
  obtain ⟨e, he, s₁, s₂, rfl⟩ := h
  have hsplit : s₁ ++ e ++ s₂ ++ '"' :: tail = s₁ ++ (e ++ (s₂ ++ '"' :: tail)) := by
    simp only [List.append_assoc]
  rw [hsplit, List.all_append, List.all_append, Bool.and_eq_true, Bool.and_eq_true] at hline
  obtain ⟨hbefore, -, hafter⟩ := hline
  have hgoes : ∃ g, afterCondition (onCondition (s₁ ++ e ++ s₂) tail)
      ⟨s₁.reverse ++ ['"', ' ', 'f', 'I'], e ++ (s₂ ++ '"' :: tail)⟩ = some g :=
    exists_afterCondition he (by simp) hafter _ _
  obtain ⟨g, hg⟩ := exists_tryFew (List.all_eq_true.mp hbefore) hgoes
  obtain ⟨u, r, htext, hread, hshort⟩ := tryFew_eq_some hg
  rw [← hsplit] at hg
  refine ⟨g, (match?_onCondition _ _).trans hg, u, ?_, ?_⟩
  · have hdrop : (onCondition (s₁ ++ e ++ s₂) tail).drop 3 = ('"' :: u) ++ r := by
      rw [onCondition, hsplit, htext]
      rfl
    have hreverse : ('"' :: u).reverse ++ [' ', 'f', 'I'] = u.reverse ++ ['"', ' ', 'f', 'I'] := by simp
    exact condition_of_afterCondition hdrop (hreverse ▸ hread)
  · -- the form goes on after the first piece, so no longer one is read
    have hpiece : u <+: s₁ := by
      rcases List.append_eq_append_iff.mp htext with ⟨v, hu, hr⟩ | ⟨v, hu, -⟩
      · cases v with
        | nil => exact ⟨[], by rw [hu, List.append_nil, List.append_nil]⟩
        | cons c v =>
          have hnone := hshort s₁ (c :: v) hu (List.cons_ne_nil c v)
          obtain ⟨x, hx⟩ := hgoes
          rw [← hr, hx] at hnone
          cases hnone
      · exact ⟨v, hu.symm⟩
    exact hpiece.trans ⟨e ++ s₂, by simp⟩

end onCondition

/-! ## Every condition on a quoted text -/

theorem classify_onCondition (usual : Number.Binary64) (depth : Nat) {s tail : List Char} {g : Found Part}
    (hg : Form.conditional.match? (onCondition s tail) = some g)
    (hlast : ∀ c ∈ (onCondition s tail).getLast?, isBlank c = false ∧ isFinalMark c = false) :
    classify ⟨depth + 1, usual⟩ (String.ofList (onCondition s tail)) =
      .conditional (operand (g.part .condition)) (conditionOf (g.part .question))
        (classify ⟨depth, usual⟩ (String.ofList (g.part .consequence))) := by
  have hnormal : normalized (onCondition s tail) = onCondition s tail := by
    refine normalized_eq_self rfl ?_ hlast
    intro c hc
    obtain rfl : 'I' = c := by simpa [onCondition] using hc
    rfl
  have hstore : store? (onCondition s tail) = none := store?_eq_none rfl
  have hne : (onCondition s tail).isEmpty = false := rfl
  rw [classify, classify, String.toList_ofList, String.toList_ofList, classifyWithin, classifyWith]
  simp only [hnormal, hne, hstore, hg, Bool.false_eq_true, if_false]

theorem operand_ne_quoted {s u : List Char} (hu : u <+: s) :
    operand ('"' :: u) ≠ .implied (String.ofList (inQuotes s)) := by
  intro heq
  have hwithin := infix_operand heq
  rw [String.toList_ofList] at hwithin
  have hlength := hwithin.length_le
  have hshort := hu.length_le
  simp only [inQuotes, List.length_cons, List.length_append, List.length_nil] at hlength
  omega

theorem operand_inQuotes_iff (s : List Char) :
    operand (inQuotes s) = .implied (String.ofList (inQuotes s)) ↔
      ∀ engine ∈ locatorEngines, ¬engine.toList <+: (trimmed s).map lower := by
  constructor
  · intro h engine hengine hstarts
    have hwhole : operand (inQuotes s) = Target.ofChars (inQuotes s) := by
      rw [operand, trimmed_inQuotes, isQuotation_inQuotes, Bool.or_true, if_pos rfl]
    cases hfound : locatorEngine? (trimmed s) with
    | none =>
      have hnone := List.find?_eq_none.mp hfound engine hengine
      rw [startsWith, List.isPrefixOf_iff_prefix] at hnone
      exact hnone hstarts
    | some engine' =>
      rw [hwhole, Target.ofChars_of_engine (by rw [unquoted_inQuotes, hfound])] at h
      cases h
  · exact fun h => operand_inQuotes _ (locatorEngine?_eq_none h)

theorem conditionOf_word {word : String} {condition : Condition}
    (h : (word, condition) ∈ presenceWords) : conditionOf word.toList = condition := by
  have hall : ∀ e ∈ presenceWords, conditionOf e.1.toList = e.2 := by decide
  exact hall (word, condition) h

theorem last_question (copula word joint : String) {step : String} (hstep : IsStep step) (s : List Char) :
    ∀ c ∈ (onCondition s (question copula word joint step)).getLast?,
      isBlank c = false ∧ isFinalMark c = false := by
  intro c hc
  have hsplit : onCondition s (question copula word joint step) =
      onCondition s (' ' :: (copula.toList ++ (word.toList ++ joint.toList))) ++ step.toList := by
    simp [onCondition, question]
  have hend : c ∈ step.toList.getLast? := by
    rw [hsplit, List.getLast?_append, List.getLast?_eq_some_getLast hstep.ne_nil, Option.some_or] at hc
    rwa [List.getLast?_eq_some_getLast hstep.ne_nil]
  exact ⟨hstep.last c hend, hstep.unmarked c hend⟩

theorem all_onLine_question {copula word joint step : String} {condition : Condition}
    (hcopula : copula ∈ copulas) (hword : (word, condition) ∈ presenceWords)
    (hjoint : joint ∈ conditionJoints) (hstep : IsStep step) :
    (question copula word joint step).all onLine = true := by
  have hcopulas : ∀ w ∈ copulas, w.toList.all onLine = true := by decide
  have hwords : ∀ w ∈ presenceWords, w.1.toList.all onLine = true := by decide
  have hjoints : ∀ w ∈ conditionJoints, w.toList.all onLine = true := by decide
  rw [question, List.all_cons, List.all_append, List.all_append, List.all_append, hcopulas _ hcopula,
    hwords _ hword, hjoints _ hjoint, hstep.all_onLine]
  rfl

/-- A condition on a text between quotes, with a step that depends on it, is about the whole text and
carries out the step, without the word `then` after a comma, if and only if the text holds no end of a
condition and is no locator. -/
theorem conditional_quoted (usual : Number.Binary64) (depth : Nat) (text copula word joint step : String)
    (condition : Condition) (hcopula : copula ∈ copulas)
    (hword : (word, condition) ∈ presenceWords) (hjoint : joint ∈ conditionJoints)
    (hline : '\n' ∉ text.toList) (hstep : IsStep step) :
    classify ⟨depth + 1, usual⟩ ("If " ++ quoted text ++ " " ++ copula ++ word ++ joint ++ step) =
        .conditional (.implied (quoted text)) condition
          (classify ⟨depth, usual⟩ (consequence joint step)) ↔
      ¬HoldsEnd text.toList ∧
        ∀ engine ∈ locatorEngines, ¬engine.toList <+: (trim text).toList.map lower := by
  have hsentence : "If " ++ quoted text ++ " " ++ copula ++ word ++ joint ++ step =
      String.ofList (onCondition text.toList (question copula word joint step)) := by
    rw [← String.toList_inj, String.toList_ofList]
    simp [quoted, onCondition, question]
  have hend := last_question copula word joint hstep text.toList
  have hwhole : ¬HoldsEnd text.toList →
      classify ⟨depth + 1, usual⟩ (String.ofList (onCondition text.toList (question copula word joint step))) =
        .conditional (operand (inQuotes text.toList)) condition
          (classify ⟨depth, usual⟩ (consequence joint step)) := by
    intro hnone
    obtain ⟨g, hg, hcondition, hquestion, hconsequence⟩ :=
      match?_question hline hnone hcopula hword hjoint hstep
    rw [classify_onCondition usual depth hg hend, hcondition, hquestion, hconsequence,
      conditionOf_word hword, String.ofList_toList]
  rw [hsentence, toList_trim, ← ofList_inQuotes, ← operand_inQuotes_iff]
  constructor
  · intro heq
    have hnone : ¬HoldsEnd text.toList := by
      intro hholds
      have hall : (text.toList ++ '"' :: question copula word joint step).all onLine = true := by
        have hquoted := (all_onLine_inQuotes text.toList).mpr hline
        rw [inQuotes, List.all_cons, List.all_append, Bool.and_eq_true, Bool.and_eq_true] at hquoted
        rw [List.all_append, List.all_cons, all_onLine_question hcopula hword hjoint hstep, hquoted.2.1]
        rfl
      obtain ⟨g, hg, u, hcondition, hu⟩ := match?_holdsEnd hall hholds
      rw [classify_onCondition usual depth hg hend, hcondition] at heq
      exact operand_ne_quoted hu (Action.conditional.inj heq).1
    rw [hwhole hnone] at heq
    exact ⟨hnone, (Action.conditional.inj heq).1⟩
  · rintro ⟨hnone, htarget⟩
    rw [hwhole hnone, htarget]

/-- The words of a condition within the quotation marks, without a blank before them and with one. -/
theorem conditional_quoted_keywords :
    classify ⟨8, ⟨0⟩⟩
          ("If " ++ quoted "exists,then" ++ " " ++ "is " ++ "visible" ++ ", " ++ "then click x") =
        .conditional (.implied (quoted "exists,then")) .visible (classify ⟨7, ⟨0⟩⟩ "click x") ∧
      classify ⟨8, ⟨0⟩⟩
          ("If " ++ quoted "a is visible, b" ++ " " ++ "" ++ "exists" ++ " then " ++ "then click x") ≠
        .conditional (.implied (quoted "a is visible, b")) .present (classify ⟨7, ⟨0⟩⟩ "then click x") := by
  have hstep : IsStep "then click x" := by
    have hlast : "then click x".toList.getLast? = some 'x' := by decide
    refine ⟨by decide, by decide +kernel, by decide +kernel, fun c hc => ?_⟩
    rw [hlast] at hc
    obtain rfl := Option.some.inj hc
    rfl
  have hone : ¬HoldsEnd "exists,then".toList := by
    have hblank : "exists,then".toList.all (fun c => !isBlank c) = true := by decide
    rintro ⟨e, ⟨hg, -, -, -⟩, hwithin⟩
    obtain ⟨c, g, rfl⟩ := List.exists_cons_of_ne_nil hg.1
    have hc := List.all_eq_true.mp hblank c (hwithin.subset (by simp))
    rw [hg.2 c List.mem_cons_self] at hc
    cases hc
  have hother : HoldsEnd "a is visible, b".toList := by
    have hgap : IsGap [' '] := ⟨by simp, List.all_eq_true.mp (by decide)⟩
    have hcopula : IsCopula ("is".toList ++ [' ']) := .some (.inl (by decide)) hgap
    have hword : ∃ w ∈ presenceWords, "visible".toList.map foldCase = w.1.toList :=
      ⟨("visible", .visible), by decide, by decide +kernel⟩
    have hjoint : IsJoint ([] ++ [',']) := .comma (by simp)
    exact ⟨_, .intro hgap hcopula hword hjoint, ['a'], [' ', 'b'], by decide⟩
  constructor
  · have hconsequence : consequence ", " "then click x" = "click x" := by decide +kernel
    have h := conditional_quoted ⟨0⟩ 7 "exists,then" "is " "visible" ", " "then click x" .visible
      (by decide) (by decide) (by decide) (by decide +kernel) hstep
    rw [hconsequence] at h
    exact h.mpr ⟨hone, by decide +kernel⟩
  · intro heq
    have h := conditional_quoted ⟨0⟩ 7 "a is visible, b" "" "exists" " then " "then click x" .present
      (by decide) (by decide) (by decide) (by decide +kernel) hstep
    exact (h.mp heq).1 hother

/-- Such a sentence is split at the first end of a condition, and what is carried out is the rest. -/
example : classify ⟨8, ⟨0⟩⟩ "If \"a is visible, b\" is visible then click \"c\"" =
    .conditional (.implied "\"a") .visible (.unknown "b\" is visible then click \"c\"") := by
  decide +kernel

end PlainSteps.Sentence
