import Mathlib.Data.List.Basic
import PlainSteps.Proofs.ConditionEnds
import PlainSteps.Proofs.WordCounts

/-!
# Phrases about presence

What is cut off the end of a text that is looked for is a phrase about presence, a phrase about the page,
or the one and then the other (`EndsInPhrase`, `withoutPresence_eq_self_iff`).

The form of such an ending is tried at every place from the start of the text on, and at the end of the
text it reads nothing at all. So what is kept goes up to the first place from which the form is read
(`withoutPresence_spec`), and a text is kept whole before an ending when the form is read at the ending and
from no place before it (`withoutPresence_append`). `phrase_of_mem_ways` tells what is read where something
is.
-/

namespace PlainSteps.Sentence

open Pattern Form Text

/-! ## Phrases -/

/-- The word `the` with a gap, or nothing. -/
inductive IsArticle : List Char → Prop
  | none : IsArticle []
  | some {w g : List Char} (hw : w.map foldCase = "the".toList) (hg : IsGap g) : IsArticle (w ++ g)

/-- A word about presence after a gap, with or without `is` or `are`. -/
inductive IsPresencePhrase : List Char → Prop
  | intro {g copula word : List Char} (hg : IsGap g) (hcopula : IsCopula copula)
      (hword : ∃ w ∈ presenceWords, word.map foldCase = w.1.toList) :
      IsPresencePhrase (g ++ (copula ++ word))

/-- The words `on page` or `on screen` after a gap, with or without the article. -/
inductive IsPlacePhrase : List Char → Prop
  | intro {g w g' article place : List Char} (hg : IsGap g) (hw : w.map foldCase = "on".toList)
      (hg' : IsGap g') (harticle : IsArticle article)
      (hplace : place.map foldCase = "page".toList ∨ place.map foldCase = "screen".toList) :
      IsPlacePhrase (g ++ (w ++ (g' ++ (article ++ place))))

/-- The text ends in a phrase about presence or about the page. -/
def EndsInPhrase (s : List Char) : Prop :=
  ∃ phrase, phrase <:+ s ∧ (IsPresencePhrase phrase ∨ IsPlacePhrase phrase)

/-! ## The form of an ending -/

def presencePhrase : Form :=
  chain [gap, leading (oneOf ["is", "are"]),
    anyOf [word "visible", word "displayed", word "present", word "shown", stem "exist" "s",
      stem "appear" "s"]]

def placePhrase : Form :=
  chain [gap, word "on", gap, leading (word "the"), oneOf ["page", "screen"]]

theorem trailingPresence_eq : Form.trailingPresence =
    chain [optional presencePhrase, optional placePhrase, blanks, textEnd] := rfl

section

variable {a : Place} {parts : Parts Part} {r : Place × Parts Part}

theorem mem_ways_presence : r ∈ (anyOf [word "visible", word "displayed", word "present", word "shown",
      stem "exist" "s", stem "appear" "s"]).ways a parts ↔ r ∈ (anyOf presenceForms).ways a parts := by
  rw [mem_ways_anyOf (by simp), mem_ways_anyOf (by simp [presenceForms])]
  refine exists_congr fun p => and_congr_left fun _ => ?_
  simp only [presenceForms, List.mem_cons, List.not_mem_nil, or_false]
  constructor
  · rintro (h | h | h | h | h | h) <;> simp [h]
  · rintro (h | h | h | h | h | h) <;> simp [h]

theorem article_of_mem_ways (h : r ∈ (leading (word "the")).ways a parts) :
    ∃ t, a.after = t ++ r.1.after ∧ IsArticle t := by
  rcases mem_ways_either.mp h with h | h
  · obtain ⟨m, hword, hgap⟩ := mem_ways_both.mp h
    obtain ⟨w, hafter, -, hw⟩ := mem_ways_letters hword
    obtain ⟨g, hafter', hg⟩ := gap_of_mem_ways hgap
    exact ⟨w ++ g, by rw [hafter, hafter', List.append_assoc], .some hw hg⟩
  · rw [mem_ways_nothing.mp h]
    exact ⟨[], rfl, .none⟩

theorem presence_phrase_of_mem_ways (h : r ∈ presencePhrase.ways a parts) :
    ∃ t, a.after = t ++ r.1.after ∧ IsPresencePhrase t := by
  obtain ⟨m₁, hgap, h⟩ := mem_ways_chain_cons.mp h
  obtain ⟨m₂, hcopula, hword⟩ := mem_ways_chain_cons.mp h
  obtain ⟨g, hafter₁, hg⟩ := gap_of_mem_ways hgap
  obtain ⟨c, hafter₂, hc⟩ := copula_of_mem_ways hcopula
  obtain ⟨v, hafter₃, hv⟩ := presence_of_mem_ways (mem_ways_presence.mp hword)
  refine ⟨g ++ (c ++ v), ?_, .intro hg hc hv⟩
  rw [hafter₁, hafter₂, hafter₃]
  simp only [List.append_assoc]

theorem place_phrase_of_mem_ways (h : r ∈ placePhrase.ways a parts) :
    ∃ t, a.after = t ++ r.1.after ∧ IsPlacePhrase t := by
  obtain ⟨m₁, hgap, h⟩ := mem_ways_chain_cons.mp h
  obtain ⟨m₂, hon, h⟩ := mem_ways_chain_cons.mp h
  obtain ⟨m₃, hgap', h⟩ := mem_ways_chain_cons.mp h
  obtain ⟨m₄, harticle, h⟩ := mem_ways_chain_cons.mp h
  obtain ⟨g, hafter₁, hg⟩ := gap_of_mem_ways hgap
  obtain ⟨w, hafter₂, -, hw⟩ := mem_ways_letters hon
  obtain ⟨g', hafter₃, hg'⟩ := gap_of_mem_ways hgap'
  obtain ⟨t, hafter₄, ht⟩ := article_of_mem_ways harticle
  obtain ⟨p, hp, h⟩ := (mem_ways_anyOf (by simp)).mp h
  have hplace : ∃ v, m₄.1.after = v ++ r.1.after ∧
      (v.map foldCase = "page".toList ∨ v.map foldCase = "screen".toList) := by
    simp only [List.map_cons, List.map_nil, List.mem_cons, List.not_mem_nil, or_false] at hp
    rcases hp with rfl | rfl
    all_goals obtain ⟨v, hafter, -, hv⟩ := mem_ways_letters h
    · exact ⟨v, hafter, .inl hv⟩
    · exact ⟨v, hafter, .inr hv⟩
  obtain ⟨v, hafter₅, hv⟩ := hplace
  refine ⟨g ++ (w ++ (g' ++ (t ++ v))), ?_, .intro hg hw hg' ht hv⟩
  rw [hafter₁, hafter₂, hafter₃, hafter₄, hafter₅]
  simp only [List.append_assoc]

theorem last_append {p : Char → Bool} {e : List Char} {c : Char} (hc : e.getLast? = some c)
    (hp : p c = false) (s : List Char) : ∀ d ∈ (s ++ e).getLast?, p d = false := by
  rw [List.mem_getLast?_append_of_mem_getLast? hc]
  rintro d ⟨rfl⟩
  exact hp

theorem last_of_append {u v : List Char} (h : ∀ c ∈ (u ++ v).getLast?, isBlank c = false) :
    ∀ c ∈ v.getLast?, isBlank c = false :=
  fun c hc => h c (List.mem_getLast?_append_of_mem_getLast? hc)

theorem phrases_of_mem_ways (h : r ∈ Form.trailingPresence.ways a parts)
    (hlast : ∀ c ∈ a.after.getLast?, isBlank c = false) :
    ∃ t u, a.after = t ++ u ∧ (t = [] ∨ IsPresencePhrase t) ∧ (u = [] ∨ IsPlacePhrase u) := by
  rw [trailingPresence_eq] at h
  obtain ⟨m, hm, h⟩ := mem_ways_chain_cons.mp h
  have hpresence : ∃ t, a.after = t ++ m.1.after ∧ (t = [] ∨ IsPresencePhrase t) := by
    rcases mem_ways_either.mp hm with hm | hm
    · obtain ⟨t, hafter, ht⟩ := presence_phrase_of_mem_ways hm
      exact ⟨t, hafter, .inr ht⟩
    · rw [mem_ways_nothing.mp hm]
      exact ⟨[], rfl, .inl rfl⟩
  obtain ⟨t, hafter, ht⟩ := hpresence
  rw [hafter] at hlast
  obtain ⟨hplace, hnil⟩ := end_of_mem_ways (last_of_append hlast) h
  refine ⟨t, m.1.after, hafter, ht, ?_⟩
  rcases mem_ways_either.mp hplace with hplace | hplace
  · obtain ⟨u, hread, hu⟩ := place_phrase_of_mem_ways hplace
    rw [hnil, List.append_nil] at hread
    exact .inr (hread ▸ hu)
  · rw [mem_ways_nothing.mp hplace] at hnil
    exact .inl hnil

end

/-! ## Endings that are read -/

theorem IsArticle.spells {t : List Char} (h : IsArticle t) : (leading (word "the")).Spells t := by
  rcases h with _ | ⟨hw, hg⟩
  · exact spells_leading_nil _
  · exact spells_leading (spells_word hw) hg

theorem IsPresencePhrase.spells {t : List Char} (h : IsPresencePhrase t) : presencePhrase.Spells t := by
  obtain ⟨hg, hcopula, hword⟩ := h
  refine spells_chain_cons (spells_gap hg) (spells_chain_cons hcopula.spells ?_)
  exact fun before s parts => mem_ways_presence.mpr (spells_presence hword before s parts)

theorem IsPlacePhrase.spells {t : List Char} (h : IsPlacePhrase t) : placePhrase.Spells t := by
  obtain ⟨hg, hw, hg', harticle, hplace⟩ := h
  refine spells_chain_cons (spells_gap hg) (spells_chain_cons (spells_word hw)
    (spells_chain_cons (spells_gap hg') (spells_chain_cons harticle.spells ?_)))
  rcases hplace with hplace | hplace
  · exact spells_anyOf (p := word "page") (by simp) (spells_word hplace)
  · exact spells_anyOf (p := word "screen") (by simp) (spells_word hplace)

theorem spells_optional {p : Form} {t : List Char} (h : t = [] ∨ p.Spells t) :
    (optional p).Spells t := by
  intro before s parts
  rcases h with rfl | h
  · exact mem_ways_either.mpr (.inr (mem_ways_nothing.mpr rfl))
  · exact mem_ways_either.mpr (.inl (h before s parts))

theorem exists_mem_ways_trailingPresence {t u : List Char} (ht : t = [] ∨ IsPresencePhrase t)
    (hu : u = [] ∨ IsPlacePhrase u) (before : List Char) (parts : Parts Part) :
    ∃ r, r ∈ Form.trailingPresence.ways ⟨before, t ++ u⟩ parts := by
  have hpresence : (optional presencePhrase).Spells t := spells_optional (ht.imp_right (·.spells))
  have hplace : (⟨u.reverse ++ (t.reverse ++ before), []⟩, parts) ∈
      (optional placePhrase).ways ⟨t.reverse ++ before, u⟩ parts := by
    have h := spells_optional (hu.imp_right (·.spells)) (t.reverse ++ before) [] parts
    rwa [List.append_nil] at h
  rw [trailingPresence_eq]
  refine exists_chain_cons (hpresence before u parts) (exists_chain_cons hplace ?_)
  refine exists_chain_cons (spells_many (List.forall_mem_nil _) _ [] parts) ?_
  exact ⟨_, mem_ways_textEnd.mpr ⟨rfl, rfl⟩⟩

/-! ## What is kept -/

/-- What is kept of a text goes up to the first place from which the form of an ending is read. -/
theorem withoutPresence_spec (s : List Char) : ∃ x e, s = x ++ e ∧ withoutPresence s = x ∧
    (∃ r, r ∈ Form.trailingPresence.ways ⟨x.reverse, e⟩ []) ∧
    ∀ u v, x = u ++ v → v ≠ [] → ∀ r, r ∉ Form.trailingPresence.ways ⟨u.reverse, v ++ e⟩ [] := by
  have hend : ∃ r, r ∈ Form.trailingPresence.ways ⟨s.reverse, []⟩ [] :=
    exists_mem_ways_trailingPresence (t := []) (u := []) (.inl rfl) (.inl rfl) _ _
  cases hfind : Form.trailingPresence.find? s with
  | none =>
    have hnone := matchAt?_of_findFrom_eq_none hfind (List.append_nil s).symm
    rw [List.append_nil, matchAt?_eq_none_iff] at hnone
    obtain ⟨r, hr⟩ := hend
    exact absurd hr (hnone r)
  | some f =>
    obtain ⟨x, e, hs, hf, hfirst⟩ := first_of_findFrom hfind
    rw [List.append_nil] at hf
    obtain ⟨r, hr, rfl⟩ := exists_way_of_matchAt? hf
    have hnil : r.1.after = [] := by
      rw [trailingPresence_eq] at hr
      obtain ⟨m₁, -, hr⟩ := mem_ways_chain_cons.mp hr
      obtain ⟨m₂, -, hr⟩ := mem_ways_chain_cons.mp hr
      obtain ⟨m₃, -, hr⟩ := mem_ways_chain_cons.mp hr
      obtain ⟨hnil, rfl⟩ := mem_ways_textEnd.mp hr
      exact hnil
    refine ⟨x, e, hs, ?_, ⟨r, hr⟩, fun u v huv hv r hr => ?_⟩
    · rw [withoutPresence, hfind]
      simp only [List.reverse_reverse, hnil, List.append_nil]
    · have hnone := hfirst u v huv hv
      rw [List.append_nil, matchAt?_eq_none_iff] at hnone
      exact hnone r hr

theorem withoutPresence_append {x e : List Char}
    (hend : ∃ r, r ∈ Form.trailingPresence.ways ⟨x.reverse, e⟩ [])
    (hwithin : ∀ u v, x = u ++ v → v ≠ [] →
      ∀ r, r ∉ Form.trailingPresence.ways ⟨u.reverse, v ++ e⟩ []) :
    withoutPresence (x ++ e) = x := by
  obtain ⟨x', e', hs, hkept, hend', hfirst⟩ := withoutPresence_spec (x ++ e)
  rw [hkept]
  rcases List.append_eq_append_iff.mp hs with ⟨v, hx, he⟩ | ⟨v, hx, he⟩
  · by_cases hv : v = []
    · rw [hx, hv, List.append_nil]
    · obtain ⟨r, hr⟩ := hend
      rw [he] at hr
      exact absurd hr (hfirst x v hx hv r)
  · by_cases hv : v = []
    · rw [hx, hv, List.append_nil]
    · obtain ⟨r, hr⟩ := hend'
      rw [he] at hr
      exact absurd hr (hwithin x' v hx hv r)

theorem withoutPresence_eq_self_iff {s : List Char} (hlast : ∀ c ∈ s.getLast?, isBlank c = false) :
    withoutPresence s = s ↔ ¬EndsInPhrase s := by
  constructor
  · rintro hkept ⟨phrase, ⟨lead, rfl⟩, hphrase⟩
    obtain ⟨x, e, hs, hx, -, hfirst⟩ := withoutPresence_spec (lead ++ phrase)
    obtain rfl : x = lead ++ phrase := hx.symm.trans hkept
    obtain rfl : e = [] := List.append_right_eq_self.mp hs.symm
    have hne : phrase ≠ [] := by
      rcases hphrase with ⟨hg, -, -⟩ | ⟨hg, -, -, -, -⟩
      all_goals exact List.append_ne_nil_of_left_ne_nil hg.1 _
    have hread : ∃ r, r ∈ Form.trailingPresence.ways ⟨lead.reverse, phrase⟩ [] := by
      rcases hphrase with hphrase | hphrase
      · have h := exists_mem_ways_trailingPresence (u := []) (.inr hphrase) (.inl rfl) lead.reverse []
        rwa [List.append_nil] at h
      · exact exists_mem_ways_trailingPresence (t := []) (.inl rfl) (.inr hphrase) lead.reverse []
    obtain ⟨r, hr⟩ := hread
    have hnone := hfirst lead phrase rfl hne r
    rw [List.append_nil] at hnone
    exact hnone hr
  · intro hends
    have hend : ∃ r, r ∈ Form.trailingPresence.ways ⟨s.reverse, []⟩ [] :=
      exists_mem_ways_trailingPresence (t := []) (u := []) (.inl rfl) (.inl rfl) _ _
    have hkept := withoutPresence_append hend fun u v huv hv r hr => ?_
    · rwa [List.append_nil] at hkept
    · rw [List.append_nil] at hr
      obtain ⟨p, q, hread, hp, hq⟩ := phrases_of_mem_ways hr (last_of_append (huv ▸ hlast))
      simp only at hread
      rcases hq with rfl | hq
      · rw [List.append_nil] at hread
        rcases hp with rfl | hp
        · exact hv hread
        · exact hends ⟨p, ⟨u, by rw [huv, hread]⟩, .inl hp⟩
      · exact hends ⟨q, ⟨u ++ p, by rw [huv, hread, List.append_assoc]⟩, .inr hq⟩

/-! ## Endings that are cut off -/

theorem readsWords_presencePhrase : ReadsWords 2 presencePhrase := by
  have hcopula : ReadsWords 1 (leading (oneOf ["is", "are"])) :=
    (unbroken_oneOf (by decide)).readsWords.leading
  have hword : ReadsWords 1 (anyOf [word "visible", word "displayed", word "present", word "shown",
      stem "exist" "s", stem "appear" "s"]) := by
    refine (unbroken_anyOf fun p hp => ?_).readsWords
    simp only [List.mem_cons, List.not_mem_nil, or_false] at hp
    rcases hp with rfl | rfl | rfl | rfl | rfl | rfl
    all_goals first
      | exact unbroken_word (by decide)
      | exact unbroken_stem (by decide) (by decide)
  exact readsWords_gap.both (hcopula.both hword)

theorem readsWords_placePhrase : ReadsWords 3 placePhrase :=
  readsWords_gap.both ((unbroken_word (by decide)).readsWords.both (readsWords_gap.both
    ((unbroken_word (by decide)).readsWords.leading.both (unbroken_oneOf (by decide)).readsWords)))

theorem IsPresencePhrase.length_words {t : List Char} (h : IsPresencePhrase t) :
    (words t).length ≤ 2 :=
  readsWords_presencePhrase.length_words h.spells

theorem IsPlacePhrase.length_words {t : List Char} (h : IsPlacePhrase t) : (words t).length ≤ 3 :=
  readsWords_placePhrase.length_words h.spells

theorem IsPlacePhrase.exists_last {t : List Char} (h : IsPlacePhrase t) :
    ∃ w ∈ ["page", "screen"], w.toList <:+ t.map foldCase := by
  obtain ⟨-, -, -, -, hplace⟩ := h
  simp only [List.map_append, ← List.append_assoc]
  rcases hplace with hplace | hplace
  · exact ⟨"page", by simp, hplace ▸ List.suffix_append _ _⟩
  · exact ⟨"screen", by simp, hplace ▸ List.suffix_append _ _⟩

theorem not_place_of_visible {s t : List Char} (ht : t <:+ s ++ "visible".toList) :
    ¬IsPlacePhrase t := by
  intro hplace
  obtain ⟨w, hw, hsuffix⟩ := hplace.exists_last
  have hvisible : "visible".toList <:+ (s ++ "visible".toList).map foldCase := by
    rw [List.map_append]
    exact List.suffix_append _ _
  have hnone : ∀ w ∈ ["page", "screen"],
      w.toList.length ≤ "visible".toList.length ∧ ¬w.toList <:+ "visible".toList := by
    decide
  obtain ⟨hlength, hnot⟩ := hnone w hw
  exact hnot (List.suffix_of_suffix_length_le (hsuffix.trans (ht.map foldCase)) hvisible hlength)

theorem isPresencePhrase_of_is (v : List Char)
    (hv : ∃ w ∈ presenceWords, v.map foldCase = w.1.toList) :
    IsPresencePhrase (" is ".toList ++ v) := by
  have hblank : IsGap [' '] := ⟨List.cons_ne_nil _ _, List.forall_mem_singleton.mpr rfl⟩
  exact .intro hblank (.some (.inl (rfl : "is".toList.map foldCase = "is".toList)) hblank) hv

theorem isPlacePhrase_onThePage : IsPlacePhrase " on the page".toList := by
  have hblank : IsGap [' '] := ⟨List.cons_ne_nil _ _, List.forall_mem_singleton.mpr rfl⟩
  exact .intro hblank (rfl : "on".toList.map foldCase = _) hblank
    (.some (rfl : "the".toList.map foldCase = _) hblank) (.inl (rfl : "page".toList.map foldCase = _))

section

variable {s : List Char} (hlast : ∀ c ∈ s.getLast?, isBlank c = false)

include hlast

theorem withoutPresence_isVisible : withoutPresence (s ++ " is visible".toList) = s := by
  have hphrase : IsPresencePhrase " is visible".toList :=
    isPresencePhrase_of_is "visible".toList ⟨("visible", .visible), by decide, rfl⟩
  have hend := exists_mem_ways_trailingPresence (u := []) (.inr hphrase) (.inl rfl) s.reverse []
  rw [List.append_nil] at hend
  refine withoutPresence_append hend fun u v huv hv r hr => ?_
  have hwords : 2 < (words (v ++ " is visible".toList)).length :=
    length_words_lt hv (last_of_append (huv ▸ hlast)) "is visible".toList
  have hend : ∀ c ∈ (v ++ " is visible".toList).getLast?, isBlank c = false :=
    last_append (c := 'e') rfl rfl v
  obtain ⟨p, q, hread, hp, hq⟩ := phrases_of_mem_ways hr hend
  simp only at hread
  rcases hq with rfl | hq
  · rw [hread, List.append_nil] at hwords
    rcases hp with rfl | hp
    · exact absurd hwords (by decide)
    · exact absurd hp.length_words (by omega)
  · have hsuffix : q <:+ (v ++ " is ".toList) ++ "visible".toList := by
      rw [List.append_assoc]
      exact ⟨p, hread.symm⟩
    exact not_place_of_visible hsuffix hq

theorem withoutPresence_isDisplayed :
    withoutPresence (s ++ " is displayed on the page".toList) = s := by
  have hphrase : IsPresencePhrase " is displayed".toList :=
    isPresencePhrase_of_is "displayed".toList ⟨("displayed", .visible), by decide, rfl⟩
  have hend := exists_mem_ways_trailingPresence (.inr hphrase) (.inr isPlacePhrase_onThePage) s.reverse []
  refine withoutPresence_append hend fun u v huv hv r hr => ?_
  have hwords : 5 < (words (v ++ " is displayed on the page".toList)).length :=
    length_words_lt hv (last_of_append (huv ▸ hlast)) "is displayed on the page".toList
  have hend : ∀ c ∈ (v ++ " is displayed on the page".toList).getLast?, isBlank c = false :=
    last_append (c := 'e') rfl rfl v
  obtain ⟨p, q, hread, hp, hq⟩ := phrases_of_mem_ways hr hend
  simp only at hread
  have hp' : (words p).length ≤ 2 := by
    rcases hp with rfl | hp
    · decide
    · exact hp.length_words
  have hq' : (words q).length ≤ 3 := by
    rcases hq with rfl | hq
    · decide
    · exact hq.length_words
  have hsum := length_words_append_le p q
  rw [← hread] at hsum
  omega

end

end PlainSteps.Sentence
