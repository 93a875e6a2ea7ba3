import PlainSteps.Proofs.PhraseChecks
import PlainSteps.Proofs.QuotedFill

/-!
# Where a typed value ends

A sentence that types a value names the field after it. The value ends before one of four words
(`placeWords`), and the form for the operands reads the first of the following that ends there: a quotation
with which the operands begin, and the shortest text.

* `not_goesOn_within` : none of the four words is a word of the value, so the shortest text is the whole
  value.
* `segment_of_goesOn` : a quotation is the whole value, or it runs over into the field (`RunsOver`).
* `match?_fillInto_typed` : the form reads the value and the field, unless a quotation runs over; it then
  reads a text that holds the word `into`, which the value does not.
-/

namespace PlainSteps.Sentence

open Pattern Form Text

variable {α : Type}

/-! ## Where a value may end -/

/-- The words that lead from a value to a field. -/
def placeWords : List String := ["into", "in", "to", "on"]

/-- One of these words in any letter case. -/
def IsPlaceWord (w : List Char) : Prop := lowered (String.ofList w) ∈ placeWords

/-- The text begins with a gap, one of these words and another blank. -/
inductive GoesOn : List Char → Prop
  | intro {g w rest : List Char} {b : Char} (hg : IsGap g) (hw : IsPlaceWord w) (hb : isBlank b = true) :
      GoesOn (g ++ (w ++ b :: rest))

theorem isPlaceWord_iff {w : List Char} :
    IsPlaceWord w ↔ ∃ k ∈ placeWords, w.map foldCase = k.toList := by
  have hspell : ∀ k ∈ placeWords, k.toList.map foldCase = k.toList ∧ 's' ∉ k.toList ∧ 'k' ∉ k.toList := by
    decide
  constructor
  · intro hw
    refine ⟨_, hw, ?_⟩
    have hlower : (lowered (String.ofList w)).toList = w.map lower := by
      simp [lowered]
    rw [← (hspell _ hw).1, hlower, List.map_map]
    exact List.map_congr_left fun c _ => (foldCase_lower c).symm
  · rintro ⟨k, hk, hw⟩
    have hlower : w.map lower = w.map foldCase := by
      refine List.map_congr_left fun c hc => ?_
      have hletter : foldCase c ∈ k.toList := hw ▸ List.mem_map_of_mem hc
      obtain ⟨-, hs, hk⟩ := hspell k hk
      exact lower_eq_foldCase (ne_of_mem_of_not_mem hletter hs) (ne_of_mem_of_not_mem hletter hk)
    rw [IsPlaceWord, lowered, String.toList_ofList, hlower, hw, String.ofList_toList]
    exact hk

theorem IsPlaceWord.ne_nil {w : List Char} (hw : IsPlaceWord w) : w ≠ [] := by
  rintro rfl
  have hnone : lowered (String.ofList []) ∉ placeWords := by decide
  exact hnone hw

theorem IsPlaceWord.not_blank {w : List Char} (hw : IsPlaceWord w) : ∀ c ∈ w, isBlank c = false := by
  have hletters : ∀ k ∈ placeWords, k.toList.all isAsciiLetter = true := by decide
  obtain ⟨k, hk, hfold⟩ := isPlaceWord_iff.mp hw
  intro c hc
  exact not_blank_of_foldCase (List.all_eq_true.mp (hletters k hk) _ (hfold ▸ List.mem_map_of_mem hc))

theorem words_of_gap {g : List Char} (hg : IsGap g) (s : List Char) : words (g ++ s) = words s := by
  rw [← words_dropWhile (g ++ s), List.dropWhile_append_of_pos hg.2, words_dropWhile]

theorem GoesOn.words {s : List Char} (h : GoesOn s) : ∃ w ws, words s = w :: ws ∧ IsPlaceWord w := by
  obtain @⟨g, w, rest, b, hg, hw, hb⟩ := h
  refine ⟨w, Text.words rest, ?_, hw⟩
  rw [words_of_gap hg, words_append_blank hb, words_of_unbroken hw.ne_nil hw.not_blank]
  rfl

theorem GoesOn.head {s : List Char} (h : GoesOn s) : ∃ b t, s = b :: t ∧ isBlank b = true := by
  obtain ⟨⟨hne, hg⟩, -, -⟩ := h
  obtain ⟨b, g, rfl⟩ := List.exists_cons_of_ne_nil hne
  exact ⟨b, _, rfl, hg b List.mem_cons_self⟩

theorem GoesOn.of_mark {s : List Char} (h : GoesOn (s ++ ['"'])) : GoesOn s := by
  generalize ht : s ++ ['"'] = t at h
  obtain @⟨g, w, rest, b, hg, hw, hb⟩ := h
  rcases List.eq_nil_or_concat rest with rfl | ⟨rest, d, rfl⟩
  · have hsplit : s ++ ['"'] = (g ++ w) ++ [b] := by rw [ht, List.append_assoc]
    obtain rfl : '"' = b := List.singleton_inj.mp (List.append_inj' hsplit rfl).2
    cases hb
  · have hsplit : s ++ ['"'] = (g ++ (w ++ b :: rest)) ++ [d] := by simp [ht]
    rw [(List.append_inj' hsplit rfl).1]
    exact .intro hg hw hb

theorem not_goesOn_within {t u v tail : List Char} (ht : IsPhrase t) (hwords : ∀ w ∈ words t, ¬IsPlaceWord w)
    (hsplit : t = u ++ v) (hv : v ≠ []) (htail : ∃ b s, tail = b :: s ∧ isBlank b = true) :
    ¬GoesOn (v ++ tail) := by
  intro h
  obtain ⟨w, ws, hw, hplace⟩ := h.words
  obtain ⟨b, _, hhead, hb⟩ := h.head
  obtain ⟨c, v, rfl⟩ := List.exists_cons_of_ne_nil hv
  obtain ⟨d, s, rfl, hd⟩ := htail
  obtain ⟨rfl, -⟩ := List.cons.inj hhead
  have hlast : ∀ e ∈ (c :: v).getLast?, isBlank e = false := by
    intro e he
    refine ht.last e ?_
    rw [hsplit]
    exact List.mem_getLast?_append_of_mem_getLast? he
  obtain ⟨w', ws', hwithin⟩ := List.exists_cons_of_ne_nil (words_ne_nil hv hlast)
  rw [words_append_blank hd, hwithin] at hw
  obtain rfl : w' = w := (List.cons.inj hw).1
  refine hwords w' ?_ hplace
  rw [hsplit, words_append_blank hb]
  refine List.mem_append_right _ ?_
  rw [← words_cons_blank hb, hwithin]
  exact List.mem_cons_self

/-! ## What follows the value -/

/-- What follows the value when it comes first. -/
def intoRest : List Form :=
  [gap, oneOf placeWords, gap, leading (word "the"), part .target longText, textEnd]

theorem goesOn_of_mem_ways {a : Place} {parts : Parts Part} {r : Place × Parts Part}
    (h : r ∈ (chain intoRest).ways a parts) : GoesOn a.after := by
  obtain ⟨m₁, hgap, h⟩ := mem_ways_chain_cons.mp h
  obtain ⟨m₂, hword, h⟩ := mem_ways_chain_cons.mp h
  obtain ⟨m₃, hgap', -⟩ := mem_ways_chain_cons.mp h
  obtain ⟨g, hafter₁, hg⟩ := gap_of_mem_ways hgap
  obtain ⟨p, hp, hword⟩ := (mem_ways_anyOf (by simp [placeWords])).mp hword
  obtain ⟨k, hk, rfl⟩ := List.mem_map.mp hp
  obtain ⟨w, hafter₂, -, hw⟩ := mem_ways_letters hword
  obtain ⟨g', hafter₃, hne, hg'⟩ := gap_of_mem_ways hgap'
  obtain ⟨b, g', rfl⟩ := List.exists_cons_of_ne_nil hne
  rw [hafter₁, hafter₂, hafter₃, List.cons_append]
  exact .intro hg (isPlaceWord_iff.mpr ⟨k, hk, hw⟩) (hg' b List.mem_cons_self)

theorem exists_mem_ways_intoRest {s : List Char} (h : GoesOn s) (hline : (s ++ ['"']).all onLine = true)
    (before : List Char) (parts : Parts Part) :
    ∃ r, r ∈ (chain intoRest).ways ⟨before, s ++ ['"']⟩ parts := by
  obtain @⟨g, w, rest, b, hg, hw, hb⟩ := h
  obtain ⟨k, hk, hfold⟩ := isPlaceWord_iff.mp hw
  have hword : (oneOf placeWords).Spells w := spells_anyOf (List.mem_map_of_mem hk) (spells_word hfold)
  have hblank : IsGap [b] := ⟨List.cons_ne_nil _ _, by simpa using hb⟩
  have hlead : (chain [gap, oneOf placeWords, gap]).Spells (g ++ (w ++ ([b] ++ []))) :=
    spells_chain_cons (spells_gap hg) (spells_chain_cons hword (spells_chain_cons (spells_gap hblank) spells_nil))
  have hrest : (rest ++ ['"']).all onLine = true := by
    simp only [List.all_append, List.all_cons, Bool.and_eq_true] at hline ⊢
    exact ⟨hline.1.2.2.2, hline.2⟩
  have htext : g ++ (w ++ b :: rest) ++ ['"'] = (g ++ (w ++ ([b] ++ []))) ++ (rest ++ ['"']) := by simp
  have hrest' : ∀ before parts, ∃ r, r ∈ (chain [leading (word "the"), part .target longText, textEnd]).ways
      ⟨before, rest ++ ['"']⟩ parts := by
    intro before parts
    refine exists_chain_cons (mem_ways_either.mpr (.inr (mem_ways_nothing.mpr rfl))) ?_
    exact exists_mem_ways_toEnd .target (by simp) hrest before parts
  obtain ⟨r, hr⟩ := hrest' ((g ++ (w ++ ([b] ++ []))).reverse ++ before) parts
  rw [htext]
  exact ⟨r, mem_ways_chain_append.mpr ⟨_, hlead before _ parts, hr⟩⟩

theorem first_intoRest {b f : List Char} (hb : ∀ c ∈ b, isBlank c = true) (hf : '\n' ∉ f) {x : α}
    {next : Place → Parts Part → Option α} {before : List Char} {parts : Parts Part}
    (hx : next ⟨(inQuotes f).reverse ++ ((b ++ intoWords).reverse ++ before), []⟩
      ((.target, ⟨(b ++ intoWords).reverse ++ before, inQuotes f⟩,
        ⟨(inQuotes f).reverse ++ ((b ++ intoWords).reverse ++ before), []⟩) :: parts) = some x) :
    (chain intoRest).first next ⟨before, b ++ (intoWords ++ inQuotes f)⟩ parts = some x := by
  have hgap : IsGap (b ++ [' ']) := by
    refine ⟨by simp, fun c hc => ?_⟩
    rcases List.mem_append.mp hc with hc | hc
    · exact hb c hc
    · obtain rfl := List.mem_singleton.mp hc
      rfl
  have htext : b ++ (intoWords ++ inQuotes f) =
      (b ++ [' ']) ++ ('i' :: 'n' :: 't' :: 'o' :: ' ' :: inQuotes f) := by simp [intoWords]
  have hplace : (b ++ intoWords).reverse ++ before =
      ' ' :: 'o' :: 't' :: 'n' :: 'i' :: ((b ++ [' ']).reverse ++ before) := by simp [intoWords]
  have hword : ((chain [oneOf placeWords, gap, leading (word "the")]).ways
      ⟨(b ++ [' ']).reverse ++ before, 'i' :: 'n' :: 't' :: 'o' :: ' ' :: inQuotes f⟩ parts).head? =
      some (⟨' ' :: 'o' :: 't' :: 'n' :: 'i' :: ((b ++ [' ']).reverse ++ before), inQuotes f⟩, parts) :=
    rfl
  have hrest : intoRest = gap :: ([oneOf placeWords, gap, leading (word "the")] ++
      [part .target longText, textEnd]) := rfl
  rw [hplace] at hx
  rw [htext, hrest, first_chain_cons]
  refine first_of_head (head?_ways_gap hgap (by rintro c ⟨rfl⟩; rfl) before parts) ?_
  rw [first_chain_append]
  refine first_of_head hword ?_
  have hfield : inQuotes f ≠ [] := List.cons_ne_nil _ _
  rw [first_toEnd_of_line .target hfield ((all_onLine_inQuotes f).mpr hf)]
  exact hx

/-! ## Quotations that run over -/

/-- A quotation that the value opens is closed in the field, where the text goes on to another field. The
field stands behind its opening mark. -/
def RunsOver (value field : List Char) : Prop :=
  ∃ p q, '"' :: field = p ++ q ∧ p ≠ [] ∧ IsSegment (value ++ p) ∧ GoesOn q

theorem inQuotes_eq_append_iff {f p rest : List Char} (hrest : rest ≠ []) :
    inQuotes f = p ++ rest ↔ ∃ u, rest = u ++ ['"'] ∧ '"' :: f = p ++ u := by
  constructor
  · intro h
    obtain ⟨u, c, rfl⟩ := (List.eq_nil_or_concat rest).resolve_left hrest
    rw [List.concat_eq_append] at h ⊢
    have hends : ('"' :: f) ++ ['"'] = (p ++ u) ++ [c] := by
      rw [List.append_assoc, ← h]
      rfl
    obtain ⟨hfield, hmark⟩ := List.append_inj' hends rfl
    obtain rfl := List.singleton_inj.mp hmark
    exact ⟨u, rfl, hfield⟩
  · rintro ⟨u, rfl, hfield⟩
    rw [← List.append_assoc, ← hfield]
    rfl

theorem isSegment_append_iff {s m p : List Char} (hs : s ≠ []) (hp : p ≠ [])
    (hm : ∀ c ∈ m, isQuoteMark c = false) : IsSegment (s ++ (m ++ p)) ↔ IsSegment (s ++ p) := by
  obtain ⟨opening, s, rfl⟩ := List.exists_cons_of_ne_nil hs
  obtain ⟨p, closing, rfl⟩ := (List.eq_nil_or_concat p).resolve_left hp
  have hlong : opening :: s ++ (m ++ p.concat closing) = opening :: ((s ++ (m ++ p)) ++ [closing]) := by simp
  have hshort : opening :: s ++ p.concat closing = opening :: ((s ++ p) ++ [closing]) := by simp
  rw [hlong, hshort, isSegment_iff, isSegment_iff]
  refine and_congr_right fun hmark => not_congr ?_
  have hnot : closing ∉ m := by
    intro hc
    have hclosing := (marks_of_closingMark hmark).2
    rw [hm closing hc] at hclosing
    cases hclosing
  simp [hnot]

theorem IsSegment.mark_mem_suffix {q u m : List Char} (hq : IsSegment q) (hu : q = u ++ m) (hm : m ≠ []) :
    ∃ c ∈ m, isQuoteMark c = true := by
  obtain @⟨opening, closing, inner, hmark, -⟩ := hq
  obtain ⟨m, c, rfl⟩ := (List.eq_nil_or_concat m).resolve_left hm
  rw [List.concat_eq_append] at hu ⊢
  have hsplit : (opening :: inner) ++ [closing] = (u ++ m) ++ [c] := by rw [List.append_assoc, ← hu]; rfl
  obtain rfl : closing = c := List.singleton_inj.mp (List.append_inj' hsplit rfl).2
  exact ⟨closing, by simp, (marks_of_closingMark hmark).2⟩

theorem into_mem_words {q s b p : List Char} (hq : IsSegment q) (hs : s ≠ []) (hp : p ≠ [])
    (hsplit : q = s ++ (b ++ intoWords ++ p)) : "into".toList ∈ words (unquoted q) := by
  obtain ⟨opening, s, rfl⟩ := List.exists_cons_of_ne_nil hs
  obtain ⟨p, closing, rfl⟩ := (List.eq_nil_or_concat p).resolve_left hp
  have hends : q = opening :: (((s ++ b) ++ ' ' :: ("into".toList ++ ' ' :: p)) ++ [closing]) := by
    simp [hsplit, intoWords]
  rw [hends, isSegment_iff] at hq
  obtain ⟨hopening, hclosing⟩ := marks_of_closingMark hq.1
  rw [hends, unquoted_of_marks hopening hclosing, words_trimmed, words_append_blank rfl,
    words_append_blank rfl]
  exact List.mem_append_right _ (List.mem_append_left _ (by decide))

/-! ## The value that is read -/

/-- How the form with the value first goes on after a value. -/
def afterValue (s : List Char) (a : Place) (parts : Parts Part) : Option (Found Part) :=
  (chain intoRest).first (fun end_ parts => some ⟨Place.start s, end_, parts⟩) a
    ((.value, Place.start s, a) :: parts)

theorem match?_fillInto_eq (s : List Char) : Form.fillInto.match? s =
    (Form.quotation.first (afterValue s) (Place.start s) []).or
      ((chain (part .value shortText :: intoRest)).match? s) := by
  have hform : Form.fillInto =
      chain (part .value (anyOf (Form.quotations ++ [shortText])) :: intoRest) := rfl
  have hways : ∀ a parts, (anyOf (Form.quotations ++ [shortText])).ways a parts =
      Form.quotation.ways a parts ++ shortText.ways a parts := by
    intro a parts
    simp only [Form.quotation, Form.quotations, List.cons_append, List.nil_append, anyOf, ways,
      List.append_assoc]
  have hshort : (chain (part .value shortText :: intoRest)).match? s =
      shortText.first (afterValue s) (Place.start s) [] := by
    rw [match?, matchAt?, first_chain_cons, first]
    rfl
  rw [hshort, match?, matchAt?, hform, first_chain_cons, first, first_eq_findSome, first_eq_findSome,
    first_eq_findSome, hways, List.findSome?_append]
  rfl

theorem afterValue_eq_some {s : List Char} {a : Place} {parts : Parts Part} {g : Found Part}
    (h : afterValue s a parts = some g) :
    GoesOn a.after ∧ g.part .value = (Place.start s).upTo a := by
  obtain ⟨r, hr, rfl⟩ := mem_of_first_some h
  refine ⟨goesOn_of_mem_ways hr, ?_⟩
  obtain ⟨p, q, hparts⟩ := parts_of_mem_toEnd [gap, oneOf placeWords, gap, leading (word "the")] rfl hr
  have hne : (Part.target == Part.value) = false := rfl
  simp only [hparts, Found.part_of_ne hne, Found.part_self]

theorem exists_afterValue_of_goesOn {u : List Char} (hu : GoesOn u) (hline : (u ++ ['"']).all onLine = true)
    (s before : List Char) (parts : Parts Part) :
    ∃ g, afterValue s ⟨before, u ++ ['"']⟩ parts = some g :=
  exists_first_some (exists_mem_ways_intoRest hu hline before _) _

section typed

variable {t b f : List Char} (ht : IsPhrase t) (hwords : ∀ w ∈ words t, ¬IsPlaceWord w)
  (hb : ∀ c ∈ b, isBlank c = true)

include hb in
theorem head_into (s : List Char) : ∃ c u, b ++ (intoWords ++ s) = c :: u ∧ isBlank c = true := by
  cases b with
  | nil => exact ⟨' ', _, rfl, rfl⟩
  | cons c b => exact ⟨c, _, rfl, hb c List.mem_cons_self⟩

include hb in
theorem not_mark_into : ∀ c ∈ b ++ intoWords, isQuoteMark c = false := by
  intro c hc
  rcases List.mem_append.mp hc with hc | hc
  · cases hmark : isQuoteMark c with
    | false => rfl
    | true =>
      have hblank := hb c hc
      rw [not_blank_of_mark hmark] at hblank
      cases hblank
  · have hnone : intoWords.any isQuoteMark = false := rfl
    exact Bool.eq_false_iff.mpr (List.any_eq_false.mp hnone c hc)

include ht hwords hb

/-- A quotation before one of the four words is the whole value, or it runs over into the field. -/
theorem segment_of_goesOn {q rest : List Char} (hq : IsSegment q)
    (hsplit : t ++ (b ++ (intoWords ++ inQuotes f)) = q ++ rest) (hrest : GoesOn rest) :
    q = t ∨ RunsOver t f ∧ ∃ p, p ≠ [] ∧ q = t ++ (b ++ intoWords ++ p) := by
  have htail : ∃ c u, b ++ (intoWords ++ inQuotes f) = c :: u ∧ isBlank c = true := head_into hb _
  rcases List.append_eq_append_iff.mp hsplit with ⟨d, rfl, htail'⟩ | ⟨d, hsuffix, hrest'⟩
  · by_cases hd : d = []
    · exact .inl (by rw [hd, List.append_nil])
    rw [← List.append_assoc] at htail'
    rcases List.append_eq_append_iff.mp htail' with ⟨p, rfl, hfield⟩ | ⟨e, hearly, -⟩
    · have hp : p ≠ [] := by
        rintro rfl
        obtain ⟨c, hc, hmark⟩ := hq.mark_mem_suffix rfl hd
        rw [not_mark_into hb c (by simpa using hc)] at hmark
        cases hmark
      have hne : rest ≠ [] := by
        obtain ⟨c, u, rfl, -⟩ := hrest.head
        exact List.cons_ne_nil c u
      obtain ⟨u, rfl, hfield'⟩ := (inQuotes_eq_append_iff hne).mp hfield
      refine .inr ⟨⟨p, u, hfield', hp, ?_, hrest.of_mark⟩, p, hp, rfl⟩
      exact (isSegment_append_iff ht.ne_nil hp (not_mark_into hb)).mp hq
    · -- the quotation would end before the field, where no mark is
      obtain ⟨c, hc, hmark⟩ := hq.mark_mem_suffix rfl hd
      rw [not_mark_into hb c (hearly ▸ List.mem_append_left e hc)] at hmark
      cases hmark
  · by_cases hd : d = []
    · exact .inl (by rw [hsuffix, hd, List.append_nil])
    · rw [hrest'] at hrest
      exact absurd hrest (not_goesOn_within ht hwords hsuffix hd htail)

/-- The operands of a sentence with the value first and the field between quotes. -/
def typedOperands (t b f : List Char) : List Char := t ++ (b ++ (intoWords ++ inQuotes f))

omit ht hwords in
theorem exists_afterValue (hf : '\n' ∉ f) :
    ∃ g, afterValue (typedOperands t b f) ⟨t.reverse, b ++ (intoWords ++ inQuotes f)⟩ [] = some g ∧
      g.part .value = t ∧ g.part .target = inQuotes f := by
  refine ⟨_, first_intoRest hb hf rfl, ?_, ?_⟩
  · have hne : (Part.target == Part.value) = false := rfl
    simp only [Found.part_of_ne hne, Found.part_self]
    exact Place.upTo_start t (b ++ (intoWords ++ inQuotes f))
  · simp only [Found.part_self, Place.upTo_toEnd]

/-- A quotation that is read is the value, and the field follows, or it runs over into the field, and then
it holds the word that stands before the field. -/
theorem value_of_quotation (hf : '\n' ∉ f) {g : Found Part}
    (hg : Form.quotation.first (afterValue (typedOperands t b f)) (Place.start (typedOperands t b f)) [] =
      some g) :
    (IsSegment t ∧ g.part .value = t ∧ g.part .target = inQuotes f) ∨
      RunsOver t f ∧ "into".toList ∈ words (unquoted (g.part .value)) := by
  rw [first_eq_findSome] at hg
  obtain ⟨⟨⟨before, rest⟩, parts⟩, hr, hafter⟩ := List.exists_of_findSome?_eq_some hg
  obtain ⟨q, hq, hsplit, rfl, rfl⟩ := mem_ways_quotation.mp hr
  obtain ⟨hrest, hvalue⟩ := afterValue_eq_some hafter
  simp only at hsplit hafter hrest hvalue
  rcases segment_of_goesOn ht hwords hb hq hsplit hrest with rfl | ⟨hover, p, hp, rfl⟩
  · left
    obtain rfl : b ++ (intoWords ++ inQuotes f) = rest := List.append_cancel_left hsplit
    obtain ⟨g', hg', hvalue', htarget⟩ := exists_afterValue (t := q) hb hf
    rw [Place.start, List.append_nil, hg'] at hafter
    obtain rfl := Option.some.inj hafter
    exact ⟨hq, hvalue', htarget⟩
  · right
    refine ⟨hover, ?_⟩
    have hread := Place.upTo_append [] (t ++ (b ++ intoWords ++ p)) rest
    rw [← hsplit] at hread
    rw [hvalue.trans hread]
    exact into_mem_words hq ht.ne_nil hp rfl

omit hwords in
theorem exists_quotation (hf : '\n' ∉ f) (hover : RunsOver t f) :
    ∃ g, Form.quotation.first (afterValue (typedOperands t b f)) (Place.start (typedOperands t b f)) [] =
      some g := by
  obtain ⟨p, u, hfield, hp, hq, hu⟩ := hover
  have hmarks : inQuotes f = p ++ (u ++ ['"']) := (inQuotes_eq_append_iff (by simp)).mpr ⟨u, rfl, hfield⟩
  have hsplit : typedOperands t b f = (t ++ (b ++ intoWords ++ p)) ++ (u ++ ['"']) := by
    simp [typedOperands, hmarks]
  have hline : (u ++ ['"']).all onLine = true := by
    have hall := (all_onLine_inQuotes f).mpr hf
    rw [hmarks, List.all_append, Bool.and_eq_true] at hall
    exact hall.2
  have hsegment : IsSegment (t ++ (b ++ intoWords ++ p)) :=
    (isSegment_append_iff ht.ne_nil hp (not_mark_into hb)).mpr hq
  have hway : (⟨(t ++ (b ++ intoWords ++ p)).reverse ++ [], u ++ ['"']⟩, []) ∈
      Form.quotation.ways (Place.start (typedOperands t b f)) [] :=
    mem_ways_quotation.mpr ⟨_, hsegment, hsplit, rfl, rfl⟩
  obtain ⟨g, hg⟩ := exists_afterValue_of_goesOn hu hline (typedOperands t b f) _ []
  exact exists_first_of_mem hway hg

theorem match?_fillInto_typed (hf : '\n' ∉ f) :
    ∃ g, Form.fillInto.match? (typedOperands t b f) = some g ∧
      (¬RunsOver t f ∧ g.part .value = t ∧ g.part .target = inQuotes f ∨
        RunsOver t f ∧ "into".toList ∈ words (unquoted (g.part .value))) := by
  rw [match?_fillInto_eq]
  cases hquote : Form.quotation.first (afterValue (typedOperands t b f))
      (Place.start (typedOperands t b f)) [] with
  | some g =>
    refine ⟨g, rfl, ?_⟩
    rcases value_of_quotation ht hwords hb hf hquote with ⟨hsegment, hvalue, htarget⟩ | hover
    · refine .inl ⟨?_, hvalue, htarget⟩
      -- a mark has one segment, so the quotation that is the value does not run over
      rintro ⟨p, u, -, hp, hq, -⟩
      have heq := hsegment.eq_of_prefix hq (List.prefix_append t p) List.prefix_rfl
      exact hp (List.self_eq_append_right.mp heq)
    · exact .inr hover
  | none =>
    have hnot : ¬RunsOver t f := by
      intro hover
      obtain ⟨g, hg⟩ := exists_quotation ht hb hf hover
      rw [hquote] at hg
      cases hg
    obtain ⟨g, hg, hparts⟩ := exists_afterValue (t := t) hb hf
    have hshort : (chain (part .value shortText :: intoRest)).match? (typedOperands t b f) = some g := by
      refine first_shortText ht.ne_nil ht.line (fun u v parts hsplit hv => ?_) ?_
      · refine List.eq_nil_iff_forall_not_mem.mpr fun r hr => ?_
        exact not_goesOn_within ht hwords hsplit hv (head_into hb _) (goesOn_of_mem_ways hr)
      · rw [List.append_nil]
        exact hg
    exact ⟨g, by rw [hshort, Option.none_or], .inl ⟨hnot, hparts⟩⟩

end typed

end PlainSteps.Sentence
