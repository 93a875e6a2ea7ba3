import PlainSteps.Proofs.LetterCase
import PlainSteps.Proofs.QuotedOperand
import PlainSteps.Proofs.WellFormedActions

/-!
# Sentences that fill a field between quotes

`Sentence.fill_quoted`: with a value and a field between double quotes, the field first and then `with`
the value, or a verb other than `fill`, the value, and then `into` the field, the value that is filled in
and the field are the two texts, whatever words they hold. A sentence that has the verb `fill` and the
value first is read the other way round when one of the texts holds the word `with` between blanks, and
only then.

A verb is read in any case of its letters: the forms before the one for filling are not read on the
sentence in lower case, where the verb is one of five words (`not_other_form`). The form that is tried
first keeps the quoted text at its start (`first_between`), if that is followed by the word that the form
asks for. The form with the field first is tried on a sentence with the value first when the verb is
`fill`; it then falls back to the shortest text before a `with`, which may stand between the quotes
(`match?_withFirst`).
-/

namespace PlainSteps.Sentence

open Pattern Form Text

variable {α : Type}

/-! ## Operands -/

theorem infix_operand {raw : List Char} {hint : String} (h : operand raw = .implied hint) :
    hint.toList <:+: raw := by
  have hpiece : ∀ {piece : List Char}, piece <:+: trimmed raw → Target.ofChars piece = .implied hint →
      hint.toList <:+: raw := by
    intro piece hstands hofChars
    cases hengine : locatorEngine? (unquoted piece) with
    | some engine =>
      rw [Target.ofChars_of_engine hengine] at hofChars
      cases hofChars
    | none =>
      rw [Target.ofChars_of_none hengine] at hofChars
      cases hofChars
      rw [String.toList_ofList]
      exact (infix_trimmed piece).trans (hstands.trans (infix_trimmed raw))
  have hquotation : ∀ q ∈ quotations (trimmed raw), q <:+: trimmed raw := by
    intro q hq
    obtain ⟨f, hf, rfl⟩ := List.mem_map.mp hq
    exact (within_of_mem_findAllFrom rfl hf).infix_text
  simp only [operand] at h
  split at h
  · exact hpiece List.infix_rfl h
  · split at h
    · rename_i locator hlocator
      obtain ⟨q, hq, rfl⟩ := List.mem_map.mp (List.mem_of_find?_eq_some hlocator)
      exact hpiece (hquotation q hq) h
    · split at h
      · rename_i f hf
        exact hpiece ((within_of_findFrom rfl hf).infix_part .locator) h
      · split at h
        · rename_i target htarget
          obtain ⟨q, hq, rfl⟩ := List.mem_map.mp (List.mem_of_head? htarget)
          exact hpiece (hquotation q hq) h
        · cases h
          rw [String.toList_ofList]
          exact infix_trimmed raw

/-! ## The verb -/

def fillVerbs : List String := ["type", "enter", "input", "write", "fill"]

/-- What stands before the operands. -/
def fillLead : List Form :=
  [blanks,
    part .verb (anyOf [word "type", word "enter", both (word "fill") (optional (both gap (word "in"))),
      word "input", word "write"]),
    gap]

/-- The forms of the operands in the order in which they are tried after a verb. -/
def operandForms (verb : String) : List Form :=
  if verb = "fill" then [Form.fillWith, Form.fillInto] else [Form.fillInto, Form.fillWith]

section verb

variable {v s : List Char} {w : String}

theorem not_other_form (hw : w ∈ fillVerbs) :
    ∀ p ∈ [Form.numbering, Form.store, Form.conditional, Form.pageLoad, Form.duration, Form.waitFor,
      Form.click], p.match? (w.toList ++ ' ' :: '"' :: s) = none := by
  simp only [fillVerbs, List.mem_cons, List.not_mem_nil, or_false] at hw
  simp only [List.forall_mem_cons, List.not_mem_nil, false_imp_iff, implies_true, and_true]
  rcases hw with rfl | rfl | rfl | rfl | rfl
  all_goals exact ⟨rfl, rfl, rfl, rfl, rfl, rfl, rfl⟩

theorem ways_fillLead (hw : w ∈ fillVerbs) :
    (chain fillLead).ways (Place.start (w.toList ++ ' ' :: '"' :: s)) [] =
      [(⟨(w.toList ++ [' ']).reverse, '"' :: s⟩,
        [(.verb, Place.start (w.toList ++ ' ' :: '"' :: s), ⟨w.toList.reverse, ' ' :: '"' :: s⟩)])] := by
  simp only [fillVerbs, List.mem_cons, List.not_mem_nil, or_false] at hw
  rcases hw with rfl | rfl | rfl | rfl | rfl
  all_goals rfl

theorem lower_verb (hv : v.map lower = w.toList) :
    (v ++ ' ' :: '"' :: s).map lower = w.toList ++ ' ' :: '"' :: s.map lower := by
  rw [List.map_append, hv]
  rfl

theorem exists_ways_fillLead (hw : w ∈ fillVerbs) (hv : v.map lower = w.toList) :
    ∃ parts, (chain fillLead).ways (Place.start (v ++ ' ' :: '"' :: s)) [] =
        [(⟨(v ++ [' ']).reverse, '"' :: s⟩, parts)] ∧
      Parts.map lower parts = [(.verb, Place.start (w.toList ++ ' ' :: '"' :: s.map lower),
        ⟨w.toList.reverse, ' ' :: '"' :: s.map lower⟩)] := by
  have hlead : (chain fillLead).Ignores lower := by simp [fillLead]
  have hsplit : v ++ ' ' :: '"' :: s = (v ++ [' ']) ++ '"' :: s := by simp
  have hlow : (chain fillLead).ways (Place.start (((v ++ [' ']) ++ '"' :: s).map lower)) [] =
      [(⟨((v ++ [' ']).map lower).reverse, ('"' :: s).map lower⟩,
        [(.verb, Place.start (w.toList ++ ' ' :: '"' :: s.map lower),
          ⟨w.toList.reverse, ' ' :: '"' :: s.map lower⟩)])] := by
    rw [← hsplit, lower_verb hv, ways_fillLead hw, List.map_append, hv]
    rfl
  rw [hsplit]
  exact ways_of_map hlead hlow

theorem match?_fill (hw : w ∈ fillVerbs) (hv : v.map lower = w.toList) (hline : ('"' :: s).all onLine = true) :
    ∃ f, Form.fill.match? (v ++ ' ' :: '"' :: s) = some f ∧ f.part .operands = '"' :: s ∧
      (f.part .verb).map lower = w.toList := by
  obtain ⟨parts, hways, hparts⟩ := exists_ways_fillLead hw hv
  have hform : Form.fill = chain (fillLead ++ [part .operands longText, textEnd]) := rfl
  rw [match?, matchAt?, hform, first_chain_append, first_of_ways hways,
    first_toEnd_of_line .operands (List.cons_ne_nil _ _) hline]
  refine ⟨_, rfl, ?_, ?_⟩
  · simp only [Found.part_self, Place.upTo_toEnd]
  · have hne : (Part.operands == Part.verb) = false := rfl
    simp only [Parts.map] at hparts
    rw [← Found.part_map]
    simp only [Found.part, Found.part?, Found.map, Parts.map, List.map_cons, hparts, List.find?_cons, hne,
      beq_self_eq_true, Option.map_some, Option.getD_some]
    exact Place.upTo_start w.toList (' ' :: '"' :: s.map lower)

theorem fill?_verb (hw : w ∈ fillVerbs) (hv : v.map lower = w.toList)
    (hline : ('"' :: s).all onLine = true) :
    fill? (v ++ ' ' :: '"' :: s) =
      ((operandForms w).findSome? (·.match? ('"' :: s))).map fun g =>
        .fill (String.ofList (unquoted (g.part .value))) (operand (g.part .target)) := by
  obtain ⟨f, hf, hoperands, hverb⟩ := match?_fill hw hv hline
  have horder : (if startsWith "fill".toList w.toList then [Form.fillWith, Form.fillInto]
      else [Form.fillInto, Form.fillWith]) = operandForms w := by
    simp only [fillVerbs, List.mem_cons, List.not_mem_nil, or_false] at hw
    rcases hw with rfl | rfl | rfl | rfl | rfl <;> rfl
  rw [fill?, hf]
  simp only [Option.bind_eq_bind, Option.bind_some, hverb, hoperands, horder]
  cases (operandForms w).findSome? (·.match? ('"' :: s)) <;> rfl

theorem not_blank_of_verb (hw : w ∈ fillVerbs) (hv : v.map lower = w.toList) :
    ∀ c ∈ (v ++ s).head?, isBlank c = false := by
  have hverbs : ∀ w ∈ fillVerbs, w.toList.head?.all (fun c => !isBlank c) = true ∧ w.toList ≠ [] := by
    decide
  obtain ⟨hblank, hne⟩ := hverbs w hw
  intro c hc
  cases v with
  | nil => exact absurd hv.symm hne
  | cons d v =>
    obtain rfl : d = c := by simpa using hc
    rw [← hv, List.map_cons, List.head?_cons, Option.all_some, isBlank_lower] at hblank
    simpa using hblank

theorem classify_verb (rules : Rules) (hw : w ∈ fillVerbs) (hv : v.map lower = w.toList)
    (hline : ('"' :: s).all onLine = true) (hlast : ('"' :: s).getLast? = some '"')
    {g : Found Part} (hg : (operandForms w).findSome? (·.match? ('"' :: s)) = some g) :
    classify rules (String.ofList (v ++ ' ' :: '"' :: s)) =
      .fill (String.ofList (unquoted (g.part .value))) (operand (g.part .target)) := by
  have hother : ∀ p : Form, p.Ignores lower → p ∈ [Form.numbering, Form.store, Form.conditional,
      Form.pageLoad, Form.duration, Form.waitFor, Form.click] →
      p.match? (v ++ ' ' :: '"' :: s) = none := by
    intro p hignores hp
    refine match?_eq_none_of_map hignores ?_
    rw [lower_verb hv]
    exact not_other_form hw p hp
  have hfirst := not_blank_of_verb (s := ' ' :: '"' :: s) hw hv
  have hend : (v ++ ' ' :: '"' :: s).getLast? = some '"' := by
    rw [List.getLast?_append, List.getLast?_cons_cons, hlast, Option.some_or]
  have hnormal : normalized (v ++ ' ' :: '"' :: s) = v ++ ' ' :: '"' :: s := by
    refine normalized_eq_self (hother _ ignores_numbering (by simp)) hfirst ?_
    intro c hc
    rw [hend] at hc
    obtain rfl : '"' = c := by simpa using hc
    exact ⟨rfl, rfl⟩
  have hstore := store?_eq_none (hother _ ignores_store (by simp))
  have hload := pageLoad?_eq_none (hother _ ignores_pageLoad (by simp))
  have hwait := waitFor?_eq_none (hother _ ignores_duration (by simp)) (hother _ ignores_waitFor (by simp))
  have hclick : click? (v ++ ' ' :: '"' :: s) = none := by
    rw [click?, hother _ ignores_click (by simp)]
    rfl
  refine classify_of_plain ?_ ?_ ?_ ?_ <;> rw [hnormal]
  · simp
  · exact hstore
  · exact hother _ ignores_conditional (by simp)
  · have hfill := fill?_verb hw hv hline
    rw [hg, Option.map_some] at hfill
    simp only [plainAction?, List.findSome?_cons, hload, hwait, hclick, hfill]

end verb

/-! ## Two texts between quotes -/

theorem first_between {s tail : List Char} (hs : '"' ∉ s) (next : Place → Parts Part → Option α)
    (before : List Char) (parts : Parts Part) :
    (between '"' '"').first next ⟨before, inQuotes s ++ tail⟩ parts =
      next ⟨(inQuotes s).reverse ++ before, tail⟩ parts := by
  have hreverse : (inQuotes s).reverse ++ before = '"' :: (s.reverse ++ '"' :: before) := by
    simp [inQuotes]
  have hafter : inQuotes s ++ tail = '"' :: (s ++ '"' :: tail) := by simp [inQuotes]
  rw [hafter, hreverse]
  have hread : (⟨'"' :: (s.reverse ++ '"' :: before), tail⟩, parts) ∈
      (between '"' '"').ways ⟨before, '"' :: (s ++ '"' :: tail)⟩ parts :=
    mem_ways_between.mpr ⟨s, hs, rfl, rfl, rfl⟩
  refine first_of_all ⟨_, hread⟩ ?_ next
  rintro ⟨⟨b, after⟩, parts'⟩ hr
  obtain ⟨t, ht, htext, rfl, rfl⟩ := mem_ways_between.mp hr
  obtain ⟨rfl, rfl⟩ := split_at_first hs ht (List.cons.inj htext).2
  rfl

/-- A quoted text is an operand when what follows it goes on, and else the operand is the shortest text
that does. -/
theorem first_operand {s tail : List Char} (hs : '"' ∉ s) (next : Place → Parts Part → Option α)
    (before : List Char) (parts : Parts Part) :
    (anyOf (Form.quotations ++ [shortText])).first next ⟨before, inQuotes s ++ tail⟩ parts =
      (next ⟨(inQuotes s).reverse ++ before, tail⟩ parts).or
        (tryFew onLine (next · parts) ('"' :: before) (s ++ '"' :: tail)) := by
  have hforms : anyOf (Form.quotations ++ [shortText]) = either (between '"' '"')
      (either (between '\'' '\'') (either (between '“' '”') (either (between '‘' '’') shortText))) := rfl
  have hsingle : (between '\'' '\'').first next ⟨before, inQuotes s ++ tail⟩ parts = none := rfl
  have hdouble : (between '“' '”').first next ⟨before, inQuotes s ++ tail⟩ parts = none := rfl
  have hcurved : (between '‘' '’').first next ⟨before, inQuotes s ++ tail⟩ parts = none := rfl
  have hshort : shortText.first next ⟨before, inQuotes s ++ tail⟩ parts =
      tryFew onLine (next · parts) ('"' :: before) (s ++ '"' :: tail) := by
    have hafter : inQuotes s ++ tail = '"' :: (s ++ '"' :: tail) := by simp [inQuotes]
    rw [hafter]
    rfl
  rw [hforms, first, first_between hs, first, hsingle, first, hdouble, first, hcurved, hshort]
  cases next ⟨(inQuotes s).reverse ++ before, tail⟩ parts <;> rfl

theorem match?_pair {one other : Part} (hne : (other == one) = false) (joint : List Form)
    {words s t : List Char}
    (hjoint : ∀ before parts, ((chain joint).ways ⟨before, words ++ inQuotes t⟩ parts).head? =
      some (⟨words.reverse ++ before, inQuotes t⟩, parts))
    (hs : '"' ∉ s) (hline : (inQuotes t).all onLine = true) :
    ∃ g, (chain (part one (anyOf (Form.quotations ++ [shortText])) ::
        (joint ++ [part other longText, textEnd]))).match? (inQuotes s ++ (words ++ inQuotes t)) = some g ∧
      g.part one = inQuotes s ∧ g.part other = inQuotes t := by
  have hone := Place.upTo_append [] (inQuotes s) (words ++ inQuotes t)
  have hend : ∀ next : Place → Parts Part → Option (Found Part), ∀ before parts,
      (chain [part other longText, textEnd]).first next ⟨before, inQuotes t⟩ parts =
        next ⟨(inQuotes t).reverse ++ before, []⟩
          ((other, ⟨before, inQuotes t⟩, ⟨(inQuotes t).reverse ++ before, []⟩) :: parts) :=
    first_toEnd_of_line other (List.cons_ne_nil _ _) hline
  rw [match?, matchAt?, first_chain_cons, first, Place.start, first_operand hs, first_chain_append,
    first_of_head (hjoint _ _) (hend _ _ _), Option.some_or]
  refine ⟨_, rfl, ?_, ?_⟩
  · simp only [Found.part_of_ne hne, Found.part_self]
    exact hone
  · simp only [Found.part_self, Place.upTo_toEnd]

def intoWords : List Char := [' ', 'i', 'n', 't', 'o', ' ']

def withWords : List Char := [' ', 'w', 'i', 't', 'h', ' ']

theorem match?_fillInto {s t : List Char} (hs : '"' ∉ s) (hline : (inQuotes t).all onLine = true) :
    ∃ g, Form.fillInto.match? (inQuotes s ++ (intoWords ++ inQuotes t)) = some g ∧
      g.part .value = inQuotes s ∧ g.part .target = inQuotes t :=
  match?_pair rfl [gap, oneOf ["into", "in", "to", "on"], gap, leading (word "the")]
    (fun _ _ => rfl) hs hline

/-- What follows the field when it comes first. -/
def withRest : List Form := [gap, word "with", gap] ++ [part .value longText, textEnd]

theorem match?_fillWith_eq (s : List Char) : Form.fillWith.match? ('"' :: s) =
    (chain (part .target (anyOf (Form.quotations ++ [shortText])) :: withRest)).match? ('"' :: s) := by
  have hform : Form.fillWith = chain (leading (word "the") ::
      part .target (anyOf (Form.quotations ++ [shortText])) :: withRest) := rfl
  have hthe : (leading (word "the")).ways (Place.start ('"' :: s)) [] = [(Place.start ('"' :: s), [])] := rfl
  rw [match?, match?, matchAt?, matchAt?, hform, first_chain_cons, first_of_ways hthe]

theorem match?_fillWith {s t : List Char} (hs : '"' ∉ s) (hline : (inQuotes t).all onLine = true) :
    ∃ g, Form.fillWith.match? (inQuotes s ++ (withWords ++ inQuotes t)) = some g ∧
      g.part .target = inQuotes s ∧ g.part .value = inQuotes t := by
  rw [inQuotes, List.cons_append, match?_fillWith_eq]
  exact match?_pair rfl [gap, word "with", gap] (fun _ _ => rfl) hs hline

/-! ## The word `with` inside a text -/

/-- The word `with` stands in the text between blanks. -/
def HoldsWith (s : List Char) : Prop :=
  ∃ b w c, isBlank b = true ∧ w.map foldCase = "with".toList ∧ isBlank c = true ∧
    b :: (w ++ [c]) <:+: s

theorem HoldsWith.mono {s t : List Char} (h : HoldsWith s) (hst : s <:+: t) : HoldsWith t := by
  obtain ⟨b, w, c, hb, hw, hc, hstands⟩ := h
  exact ⟨b, w, c, hb, hw, hc, hstands.trans hst⟩

theorem split_of_holdsWith {t : List Char} (h : HoldsWith ('"' :: t)) :
    ∃ u b w c v, isBlank b = true ∧ w.map foldCase = "with".toList ∧ isBlank c = true ∧
      t = u ++ b :: (w ++ c :: v) := by
  obtain ⟨b, w, c, hb, hw, hc, u, v, huv⟩ := h
  cases u with
  | nil =>
    obtain ⟨rfl, -⟩ := List.cons.inj huv
    cases hb
  | cons d u =>
    obtain ⟨-, rfl⟩ := List.cons.inj huv
    exact ⟨u, b, w, c, v, hb, hw, hc, by simp⟩

theorem infix_of_notMem {t s₁ s₂ : List α} {c : α} (hc : c ∉ t) (h : t <:+: s₁ ++ c :: s₂) :
    t <:+: s₁ ∨ t <:+: s₂ := by
  obtain ⟨u, v, huv⟩ := h
  rcases List.append_eq_append_iff.mp huv with ⟨d, hs₁, -⟩ | ⟨d, hut, hd⟩
  · exact .inl ⟨u, d, hs₁.symm⟩
  · cases d with
    | nil =>
      rw [List.append_nil] at hut
      exact .inl ⟨u, [], by rw [hut, List.append_nil]⟩
    | cons e d =>
      obtain ⟨rfl, rfl⟩ := List.cons.inj hd
      rcases List.append_eq_append_iff.mp hut with ⟨f, -, ht⟩ | ⟨f, -, ht⟩
      · exact absurd (ht ▸ List.mem_append_right f List.mem_cons_self) hc
      · cases f with
        | nil =>
          rw [List.nil_append] at ht
          exact absurd (ht ▸ List.mem_cons_self) hc
        | cons g f =>
          obtain ⟨-, rfl⟩ := List.cons.inj ht
          exact .inr ⟨f, v, rfl⟩

theorem holdsWith_pair {words s t : List Char} (hwords : ¬HoldsWith words) :
    HoldsWith (inQuotes s ++ (words ++ inQuotes t)) ↔ HoldsWith s ∨ HoldsWith t := by
  have hsplit : inQuotes s ++ (words ++ inQuotes t) =
      [] ++ '"' :: (s ++ '"' :: (words ++ '"' :: (t ++ '"' :: []))) := by
    simp [inQuotes]
  constructor
  · rintro ⟨b, w, c, hb, hw, hc, hstands⟩
    have hmark : '"' ∉ b :: (w ++ [c]) := by
      intro hmem
      rcases List.mem_cons.mp hmem with rfl | hmem
      · cases hb
      · rcases List.mem_append.mp hmem with hmem | hmem
        · have hfold := List.mem_map_of_mem (f := foldCase) hmem
          rw [hw] at hfold
          exact absurd hfold (by decide)
        · obtain rfl := List.mem_singleton.mp hmem
          cases hc
    have hholds : ∀ {u : List Char}, b :: (w ++ [c]) <:+: u → HoldsWith u :=
      fun h => ⟨b, w, c, hb, hw, hc, h⟩
    have hnil : ¬b :: (w ++ [c]) <:+: [] := by simp
    rw [hsplit] at hstands
    rcases infix_of_notMem hmark hstands with h | h
    · exact absurd h hnil
    rcases infix_of_notMem hmark h with h | h
    · exact .inl (hholds h)
    rcases infix_of_notMem hmark h with h | h
    · exact absurd (hholds h) hwords
    rcases infix_of_notMem hmark h with h | h
    · exact .inr (hholds h)
    · exact absurd h hnil
  · rintro (h | h)
    · exact h.mono ⟨['"'], '"' :: (words ++ inQuotes t), by simp [inQuotes]⟩
    · exact h.mono ⟨inQuotes s ++ (words ++ ['"']), ['"'], by simp [inQuotes]⟩

theorem not_holdsWith_intoWords : ¬HoldsWith intoWords := by
  rintro ⟨b, w, c, -, hw, -, hstands⟩
  have hlength : w.length = 4 := by
    have h := congrArg List.length hw
    simpa using h
  have heq : b :: (w ++ [c]) = intoWords := hstands.eq_of_length (by simp [hlength, intoWords])
  have hinto : w = ['i', 'n', 't', 'o'] := by
    obtain ⟨-, h⟩ := List.cons.inj heq
    have h : w ++ [c] = ['i', 'n', 't', 'o'] ++ [' '] := h
    exact (List.append_inj' h rfl).1
  rw [hinto] at hw
  exact absurd hw (by decide)

section withRest

variable {a : Place} {parts : Parts Part}

theorem holdsWith_of_mem_ways {r : Place × Parts Part} (h : r ∈ (chain withRest).ways a parts) :
    HoldsWith a.after := by
  obtain ⟨m₁, hm₁, h⟩ := mem_ways_chain_cons.mp h
  obtain ⟨m₂, hm₂, h⟩ := mem_ways_chain_cons.mp h
  obtain ⟨m₃, hm₃, -⟩ := mem_ways_chain_cons.mp h
  obtain ⟨t, htne, hafter₁, -, ht, -⟩ := mem_ways_run.mp hm₁
  obtain ⟨w, hafter₂, -, hw⟩ := mem_ways_letters hm₂
  obtain ⟨u, hune, hafter₃, -, hu, -⟩ := mem_ways_run.mp hm₃
  obtain ⟨t, b, rfl⟩ := (List.eq_nil_or_concat t).resolve_left htne
  obtain ⟨c, u, rfl⟩ := List.exists_cons_of_ne_nil hune
  refine ⟨b, w, c, ht b (by simp), hw, hu c List.mem_cons_self, t, u ++ m₃.1.after, ?_⟩
  rw [hafter₁, hafter₂, hafter₃]
  simp

theorem exists_mem_ways_withRest {b c : Char} {w v : List Char} (hb : isBlank b = true)
    (hw : w.map foldCase = "with".toList) (hc : isBlank c = true) (hne : v ≠ [])
    (hline : v.all onLine = true) (hafter : a.after = b :: (w ++ c :: v)) :
    ∃ r, r ∈ (chain withRest).ways a parts := by
  obtain ⟨before, after⟩ := a
  obtain rfl : after = b :: (w ++ c :: v) := hafter
  have hgap : ∀ {d : Char} {before s : List Char}, isBlank d = true →
      (⟨d :: before, s⟩, parts) ∈ gap.ways ⟨before, d :: s⟩ parts := by
    intro d before s hd
    refine mem_ways_run.mpr ⟨[d], List.cons_ne_nil _ _, rfl, rfl, ?_, rfl⟩
    simpa using hd
  have hvalue : (⟨v.reverse ++ c :: (w.reverse ++ b :: before), []⟩, parts) ∈
      longText.ways ⟨c :: (w.reverse ++ b :: before), v⟩ parts :=
    mem_ways_run.mpr ⟨v, hne, (List.append_nil v).symm, rfl, List.all_eq_true.mp hline, rfl⟩
  have hend : (⟨v.reverse ++ c :: (w.reverse ++ b :: before), []⟩,
      (.value, ⟨c :: (w.reverse ++ b :: before), v⟩, ⟨v.reverse ++ c :: (w.reverse ++ b :: before), []⟩) ::
        parts) ∈ (chain withRest).ways ⟨before, b :: (w ++ c :: v)⟩ parts := by
    refine mem_ways_chain_cons.mpr ⟨_, hgap hb, ?_⟩
    refine mem_ways_chain_cons.mpr ⟨_, mem_ways_of_word hw _ _ _, ?_⟩
    refine mem_ways_chain_cons.mpr ⟨_, hgap hc, ?_⟩
    refine mem_ways_chain_cons.mpr ⟨_, mem_ways_part.mpr ⟨_, hvalue, rfl⟩, ?_⟩
    exact mem_ways_textEnd.mpr ⟨rfl, rfl⟩
  exact ⟨_, hend⟩

end withRest

/-! ## The value first after the verb `fill` -/

/-- How the form with the field first goes on after a field. -/
def afterField (s : List Char) (a : Place) : Option (Found Part) :=
  (chain withRest).first (fun end_ parts => some ⟨Place.start s, end_, parts⟩) a
    [(.target, Place.start s, a)]

theorem holdsWith_of_afterField {s : List Char} {a : Place} {g : Found Part}
    (h : afterField s a = some g) : HoldsWith a.after := by
  obtain ⟨r, hr, -⟩ := mem_of_first_some h
  exact holdsWith_of_mem_ways hr

theorem target_of_afterField {s : List Char} {a : Place} {g : Found Part}
    (h : afterField s a = some g) : g.part .target = (Place.start s).upTo a := by
  obtain ⟨r, hr, rfl⟩ := mem_of_first_some h
  obtain ⟨p, q, hparts⟩ := parts_of_mem_toEnd [gap, word "with", gap] rfl hr
  have hne : (Part.value == Part.target) = false := rfl
  simp only [Found.part, Found.part?, hparts, List.find?_cons, hne, beq_self_eq_true, Option.map_some,
    Option.getD_some]

theorem exists_afterField (s : List Char) {before v w : List Char} {b c : Char}
    (hb : isBlank b = true) (hw : w.map foldCase = "with".toList) (hc : isBlank c = true) (hne : v ≠ [])
    (hline : v.all onLine = true) :
    ∃ g, afterField s ⟨before, b :: (w ++ c :: v)⟩ = some g :=
  exists_first_some (exists_mem_ways_withRest hb hw hc hne hline rfl) _

/-- The operands with the value first. -/
def valueFirst (x y : List Char) : List Char := inQuotes x ++ (intoWords ++ inQuotes y)

theorem valueFirst_eq (x y : List Char) :
    valueFirst x y = '"' :: (x ++ '"' :: (intoWords ++ inQuotes y)) := by
  simp [valueFirst, inQuotes]

section valueFirst

variable {x y : List Char}

/-- The form with the field first does not stop at the closing mark of the value, so it takes the
shortest text that the word `with` follows. -/
theorem match?_withFirst (hx : '"' ∉ x) : Form.fillWith.match? (valueFirst x y) =
    tryFew onLine (afterField (valueFirst x y)) ['"'] (x ++ '"' :: (intoWords ++ inQuotes y)) := by
  have hinto : afterField (valueFirst x y) ⟨(inQuotes x).reverse ++ [], intoWords ++ inQuotes y⟩ = none :=
    rfl
  have hmatch : Form.fillWith.match? (valueFirst x y) =
      (chain (part .target (anyOf (Form.quotations ++ [shortText])) :: withRest)).match?
        (valueFirst x y) := by
    rw [valueFirst_eq]
    exact match?_fillWith_eq _
  rw [hmatch, match?, matchAt?, first_chain_cons, first]
  refine (first_operand hx _ [] []).trans ?_
  change (afterField (valueFirst x y) ⟨(inQuotes x).reverse ++ [], intoWords ++ inQuotes y⟩).or
    (tryFew onLine (afterField (valueFirst x y)) ['"'] (x ++ '"' :: (intoWords ++ inQuotes y))) = _
  rw [hinto, Option.none_or]

theorem match?_fillWith_eq_none (hx : '"' ∉ x) (hnone : ¬HoldsWith (valueFirst x y)) :
    Form.fillWith.match? (valueFirst x y) = none := by
  rw [match?_withFirst hx]
  cases h : tryFew onLine (afterField (valueFirst x y)) ['"'] (x ++ '"' :: (intoWords ++ inQuotes y)) with
  | none => rfl
  | some g =>
    obtain ⟨t, u, htext, hg, -⟩ := tryFew_eq_some h
    have hsuffix : u <:+: valueFirst x y := by
      rw [valueFirst_eq, htext]
      exact ⟨'"' :: t, [], by simp⟩
    exact absurd ((holdsWith_of_afterField hg).mono hsuffix) hnone

theorem exists_afterField_split (hline : (valueFirst x y).all onLine = true) {u w v : List Char} {b c : Char}
    (hb : isBlank b = true) (hw : w.map foldCase = "with".toList) (hc : isBlank c = true)
    (htext : valueFirst x y = '"' :: (u ++ b :: (w ++ c :: v))) (hne : v ≠ []) :
    ∃ g, afterField (valueFirst x y) ⟨u.reverse ++ ['"'], b :: (w ++ c :: v)⟩ = some g := by
  refine exists_afterField _ hb hw hc hne ?_
  rw [htext] at hline
  simp only [List.all_cons, List.all_append, Bool.and_eq_true] at hline
  exact hline.2.2.2.2.2

theorem getLast?_pair (x words y : List Char) :
    (inQuotes x ++ (words ++ inQuotes y)).getLast? = some '"' := by
  rw [← List.append_assoc, List.getLast?_append, getLast?_inQuotes, Option.some_or]

theorem exists_match?_fillWith (hx : '"' ∉ x) (hline : (valueFirst x y).all onLine = true)
    (h : HoldsWith (valueFirst x y)) : ∃ g, Form.fillWith.match? (valueFirst x y) = some g := by
  have htext := valueFirst_eq x y
  rw [htext] at h
  obtain ⟨u, b, w, c, v, hb, hw, hc, hsplit⟩ := split_of_holdsWith h
  have hne : v ≠ [] := by
    rintro rfl
    have hlast := getLast?_pair x intoWords y
    have hconcat : valueFirst x y = ('"' :: (u ++ b :: w)) ++ [c] := by
      rw [htext, hsplit]
      simp
    rw [← valueFirst, hconcat, List.getLast?_concat] at hlast
    obtain rfl := Option.some.inj hlast
    cases hc
  have hall : ∀ e ∈ u, onLine e = true := by
    intro e he
    refine List.all_eq_true.mp hline e ?_
    rw [htext, hsplit]
    simp [he]
  rw [match?_withFirst hx, hsplit]
  exact exists_tryFew hall (exists_afterField_split hline hb hw hc (by rw [htext, hsplit]) hne)

theorem target_of_match?_fillWith (hx : '"' ∉ x) (hline : (valueFirst x y).all onLine = true)
    {g : Found Part} (hg : Form.fillWith.match? (valueFirst x y) = some g) :
    g.part .target <+: valueFirst x y ∧ ¬HoldsWith (g.part .target) := by
  rw [match?_withFirst hx] at hg
  obtain ⟨t, r, hsplit, hafter, hshort⟩ := tryFew_eq_some hg
  have htext : valueFirst x y = '"' :: (t ++ r) := by rw [valueFirst_eq, hsplit]
  have htarget : g.part .target = '"' :: t := by
    have hread := Place.upTo_append [] ('"' :: t) r
    have hstart : Place.start (valueFirst x y) = ⟨[], '"' :: t ++ r⟩ := by
      rw [htext]
      rfl
    rw [target_of_afterField hafter, hstart]
    rw [List.reverse_cons, List.append_nil] at hread
    exact hread
  rw [htarget]
  refine ⟨⟨r, htext.symm⟩, fun hholds => ?_⟩
  -- a word within the target would end an earlier one
  obtain ⟨u, b, w, c, v, hb, hw, hc, ht⟩ := split_of_holdsWith hholds
  have hr : r ≠ [] := by
    rintro rfl
    obtain ⟨b, w, c, -, -, -, hstands⟩ := holdsWith_of_afterField hafter
    simp at hstands
  have hlong : valueFirst x y = '"' :: (u ++ b :: (w ++ c :: (v ++ r))) := by
    rw [htext, ht]
    simp
  obtain ⟨g', hg'⟩ := exists_afterField_split hline hb hw hc hlong (by simp [hr])
  have hnone := hshort u _ ht (List.cons_ne_nil _ _)
  rw [List.cons_append, List.append_assoc, List.cons_append, hg'] at hnone
  cases hnone

theorem operand_ne_field {target : List Char} (hx : '"' ∉ x) (hbegin : target <+: valueFirst x y)
    (hnone : ¬HoldsWith target) (h : HoldsWith x ∨ HoldsWith y) :
    operand target ≠ .implied (String.ofList (inQuotes y)) := by
  intro heq
  have hfield : inQuotes y <:+: target := by
    have h := infix_operand heq
    rwa [String.toList_ofList] at h
  rcases h with h | h
  · have hvalue : '"' :: x <+: valueFirst x y := by
      rw [valueFirst_eq]
      exact ⟨'"' :: (intoWords ++ inQuotes y), rfl⟩
    rcases List.prefix_or_prefix_of_prefix hbegin hvalue with hshort | hlong
    · -- there is one mark only up to the end of the value
      have hcount := (hfield.trans hshort.isInfix).sublist.count_le '"'
      have hone : List.count '"' x = 0 := List.count_eq_zero.mpr hx
      simp [inQuotes, hone] at hcount
    · exact hnone (h.mono ((List.suffix_cons _ x).isInfix.trans hlong.isInfix))
  · have hwithin : y <:+: inQuotes y := ⟨['"'], ['"'], by simp [inQuotes]⟩
    exact hnone (h.mono (hwithin.trans hfield))

end valueFirst

/-! ## Every sentence that fills a field -/

section sentence

variable {v x y : List Char} {w : String}

theorem all_onLine_pair (words : List Char) (hwords : words.all onLine = true) (hx : '\n' ∉ x)
    (hy : '\n' ∉ y) : (inQuotes x ++ (words ++ inQuotes y)).all onLine = true := by
  rw [List.all_append, List.all_append, (all_onLine_inQuotes x).mpr hx, (all_onLine_inQuotes y).mpr hy,
    hwords]
  rfl

theorem classify_fieldFirst (rules : Rules) (hv : v.map lower = "fill".toList) (hy : '"' ∉ y)
    (hxline : '\n' ∉ x) (hyline : '\n' ∉ y) :
    classify rules (String.ofList (v ++ ' ' :: (inQuotes y ++ (withWords ++ inQuotes x)))) =
      .fill (String.ofList (trimmed x)) (operand (inQuotes y)) := by
  obtain ⟨g, hg, htarget, hvalue⟩ := match?_fillWith hy ((all_onLine_inQuotes x).mpr hxline)
  have horder : (operandForms "fill").findSome? (·.match? (inQuotes y ++ (withWords ++ inQuotes x))) =
      some g := by
    have hforms : operandForms "fill" = [Form.fillWith, Form.fillInto] := rfl
    rw [hforms, List.findSome?_cons, hg]
  have hclassify := classify_verb rules (by decide) hv
    (all_onLine_pair withWords (by decide) hyline hxline) (getLast?_pair y withWords x) horder
  rw [hvalue, htarget, unquoted_inQuotes] at hclassify
  exact hclassify

/-- The value first: the two operands are told apart by their quotation marks, unless the verb is `fill`
and one of them holds the word `with`. -/
theorem classify_valueFirst (rules : Rules) (hw : w ∈ fillVerbs) (hv : v.map lower = w.toList)
    (hx : '"' ∉ x) (hxline : '\n' ∉ x) (hyline : '\n' ∉ y)
    (hplain : operand (inQuotes y) = .implied (String.ofList (inQuotes y))) :
    classify rules (String.ofList (v ++ ' ' :: valueFirst x y)) =
        .fill (String.ofList (trimmed x)) (.implied (String.ofList (inQuotes y))) ↔
      (w = "fill" → ¬HoldsWith x ∧ ¬HoldsWith y) := by
  obtain ⟨g, hg, hvalue, htarget⟩ := match?_fillInto (t := y) hx ((all_onLine_inQuotes y).mpr hyline)
  have hg : Form.fillInto.match? (valueFirst x y) = some g := hg
  have hline : (valueFirst x y).all onLine = true := all_onLine_pair intoWords (by decide) hxline hyline
  have hclassify : ∀ {g}, (operandForms w).findSome? (·.match? (valueFirst x y)) = some g →
      classify rules (String.ofList (v ++ ' ' :: valueFirst x y)) =
        .fill (String.ofList (unquoted (g.part .value))) (operand (g.part .target)) :=
    fun h => classify_verb rules hw hv hline (getLast?_pair x intoWords y) h
  have hright : (operandForms w).findSome? (·.match? (valueFirst x y)) = some g →
      classify rules (String.ofList (v ++ ' ' :: valueFirst x y)) =
        .fill (String.ofList (trimmed x)) (.implied (String.ofList (inQuotes y))) := by
    intro h
    rw [hclassify h, hvalue, htarget, unquoted_inQuotes, hplain]
  by_cases hfill : w = "fill"
  · subst hfill
    have hforms : operandForms "fill" = [Form.fillWith, Form.fillInto] := rfl
    have hholds : HoldsWith (valueFirst x y) ↔ HoldsWith x ∨ HoldsWith y :=
      holdsWith_pair not_holdsWith_intoWords
    rw [forall_prop_of_true rfl, ← not_or, ← hholds]
    constructor
    · intro heq hwith
      obtain ⟨g', hg'⟩ := exists_match?_fillWith hx hline hwith
      obtain ⟨hbegin, hnone⟩ := target_of_match?_fillWith hx hline hg'
      have hwrong : (operandForms "fill").findSome? (·.match? (valueFirst x y)) = some g' := by
        rw [hforms, List.findSome?_cons, hg']
      rw [hclassify hwrong] at heq
      exact operand_ne_field hx hbegin hnone (hholds.mp hwith) (Action.fill.inj heq).2
    · intro hwith
      refine hright ?_
      rw [hforms, List.findSome?_cons, match?_fillWith_eq_none hx hwith, List.findSome?_cons, hg]
  · have hforms : operandForms w = [Form.fillInto, Form.fillWith] := if_neg hfill
    have hintended := hright (by rw [hforms, List.findSome?_cons, hg])
    exact iff_of_true hintended fun h => absurd h hfill

end sentence

/-- A value and a field between quotes are what is filled in and where: with the field first and then
`with` the value, and with the value first, in which case the verb `fill` asks that neither holds the word
`with` between blanks. -/
theorem fill_quoted (rules : Rules) (verb value field : String) (hverb : lowered verb ∈ fillVerbs)
    (hvalue : '"' ∉ value.toList ∧ '\n' ∉ value.toList)
    (hfield : '"' ∉ field.toList ∧ '\n' ∉ field.toList)
    (hplain : ∀ engine ∈ locatorEngines, ¬engine.toList <+: (trim field).toList.map lower) :
    (lowered verb = "fill" →
      classify rules (verb ++ " " ++ quoted field ++ " with " ++ quoted value) =
        .fill (trim value) (.implied (quoted field))) ∧
    (classify rules (verb ++ " " ++ quoted value ++ " into " ++ quoted field) =
        .fill (trim value) (.implied (quoted field)) ↔
      (lowered verb = "fill" → ¬HoldsWith value.toList ∧ ¬HoldsWith field.toList)) := by
  have htarget : operand (inQuotes field.toList) = .implied (String.ofList (inQuotes field.toList)) :=
    operand_inQuotes _ (toList_trim field ▸ locatorEngine?_eq_none hplain)
  have htext : ∀ (joint : String) (words : List Char) (s t : String), joint.toList = words →
      verb ++ " " ++ quoted s ++ joint ++ quoted t =
        String.ofList (verb.toList ++ ' ' :: (inQuotes s.toList ++ (words ++ inQuotes t.toList))) := by
    rintro joint words s t rfl
    rw [← String.toList_inj, String.toList_ofList]
    simp [quoted, inQuotes]
  constructor
  · intro hfill
    have hv : verb.toList.map lower = "fill".toList := by
      rw [← hfill, lowered, String.toList_ofList]
    rw [htext " with " withWords field value (by decide), ← ofList_inQuotes, ← htarget]
    exact classify_fieldFirst rules hv hfield.1 hvalue.2 hfield.2
  · rw [htext " into " intoWords value field (by decide), ← ofList_inQuotes]
    exact classify_valueFirst rules hverb (by rw [lowered, String.toList_ofList]) hvalue.1 hvalue.2
      hfield.2 htarget

/-- Words that join or locate stay between the quotation marks. -/
theorem fill_quoted_keywords :
    let rules : Rules := { maxDepth := 8, usualPause := ⟨0⟩ }
    classify rules ("fill" ++ " " ++ quoted "to css=i on" ++ " with " ++ quoted "go into the text=in, with i") =
        .fill "go into the text=in, with i" (.implied (quoted "to css=i on")) ∧
      classify rules ("ENTER" ++ " " ++ quoted "go into the text=in, with i" ++ " into " ++
          quoted "to css=i on") =
        .fill "go into the text=in, with i" (.implied (quoted "to css=i on")) ∧
      classify rules ("Fill" ++ " " ++ quoted "go into the text=in, with i" ++ " into " ++
          quoted "to css=i on") ≠
        .fill "go into the text=in, with i" (.implied (quoted "to css=i on")) := by
  intro rules
  have hvalue : '"' ∉ "go into the text=in, with i".toList ∧
      '\n' ∉ "go into the text=in, with i".toList := by decide +kernel
  have hfield : '"' ∉ "to css=i on".toList ∧ '\n' ∉ "to css=i on".toList := by decide +kernel
  have hplain : ∀ engine ∈ locatorEngines,
      ¬engine.toList <+: (trim "to css=i on").toList.map lower := by decide +kernel
  have htrim : trim "go into the text=in, with i" = "go into the text=in, with i" := by decide +kernel
  have hholds : HoldsWith "go into the text=in, with i".toList :=
    ⟨' ', "with".toList, ' ', rfl, rfl, rfl, "go into the text=in,".toList, ['i'], by decide +kernel⟩
  obtain ⟨hfirst, -⟩ := fill_quoted rules "fill" _ _ (by decide) hvalue hfield hplain
  obtain ⟨-, henter⟩ := fill_quoted rules "ENTER" _ _ (by decide) hvalue hfield hplain
  obtain ⟨-, hfill⟩ := fill_quoted rules "Fill" _ _ (by decide) hvalue hfield hplain
  rw [htrim] at hfirst henter hfill
  refine ⟨hfirst (by decide), henter.mpr (fun h => absurd h (by decide)), fun heq => ?_⟩
  exact (hfill.mp heq (by decide)).1 hholds

/-- Such a sentence is split before the word: what stands before it is the field, and the rest the
value. -/
example : classify { maxDepth := 8, usualPause := ⟨0⟩ } "Fill \"a with b\" into \"y\"" =
    .fill "b\" into \"y\"" (.implied "\"a") := by
  decide +kernel

end PlainSteps.Sentence
