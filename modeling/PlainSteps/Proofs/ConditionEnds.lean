import PlainSteps.Proofs.SubstitutedStore

/-!
# What ends a condition

The target of a conditional sentence is the shortest text after which its form goes on. The form goes on
where a text begins that ends the condition (`EndsCondition`): a gap, a word about presence, and a comma
or the word `then`. The letters may be in any case, and `is` or `are` may stand before the word.

* `endsCondition_of_mem_ways` : the form is read only where such a text begins.
* `exists_mem_ways_conditionRest` : where one begins, the form is read, if one line follows.
* `parts_of_mem_conditionRest` : the parts that are read are the question and the consequence.

Both ways go through the pieces of the form in their order. A piece is read over a text wherever the text
stands (`Pattern.Spells`).
-/

namespace PlainSteps.Sentence

open Pattern Form Text

/-! ## What ends a condition -/

/-- The words about presence, each with the condition that it stands for. -/
def presenceWords : List (String × Condition) :=
  [("exist", .present), ("exists", .present), ("present", .present), ("visible", .visible),
    ("displayed", .visible), ("shown", .visible), ("appear", .visible), ("appears", .visible)]

/-- A run of blanks. -/
def IsGap (g : List Char) : Prop := g ≠ [] ∧ ∀ c ∈ g, isBlank c = true

/-- The words `is` and `are` with a gap, or nothing. -/
inductive IsCopula : List Char → Prop
  | none : IsCopula []
  | some {w g : List Char} (hw : w.map foldCase = "is".toList ∨ w.map foldCase = "are".toList)
      (hg : IsGap g) : IsCopula (w ++ g)

/-- A comma, or the word `then` between gaps. -/
inductive IsJoint : List Char → Prop
  | comma {g : List Char} (hg : ∀ c ∈ g, isBlank c = true) : IsJoint (g ++ [','])
  | then_ {g w g' : List Char} (hg : IsGap g) (hw : w.map foldCase = "then".toList) (hg' : IsGap g') :
      IsJoint (g ++ (w ++ g'))

/-- A text that ends a condition: after a gap, a word about presence and a joint. -/
inductive EndsCondition : List Char → Prop
  | intro {g copula word joint : List Char} (hg : IsGap g) (hcopula : IsCopula copula)
      (hword : ∃ w ∈ presenceWords, word.map foldCase = w.1.toList) (hjoint : IsJoint joint) :
      EndsCondition (g ++ (copula ++ (word ++ joint)))

/-- Somewhere in the text stands what ends a condition. -/
def HoldsEnd (s : List Char) : Prop :=
  ∃ e, EndsCondition e ∧ e <:+: s

/-! ## The form of a condition -/

def presenceForms : List Form :=
  [stem "exist" "s", word "present", word "visible", word "displayed", word "shown",
    stem "appear" "s"]

/-- What asks about the target of a condition. -/
def asking : List Form :=
  [gap, leading (oneOf ["is", "are"]), part .question (anyOf presenceForms)]

/-- What stands between a condition and its consequence. -/
def joining : Form :=
  either (chain [blanks, word ",", blanks, leading (word "then")]) (chain [gap, word "then", gap])

/-- What follows the target of a condition. -/
def conditionRest : List Form :=
  asking ++ joining :: [part .consequence longText, textEnd]

theorem conditional_eq_rest : Form.conditional =
    chain ([blanks, word "if", gap] ++ part .condition shortText :: conditionRest) := rfl

section ways

variable {a : Place} {parts : Parts Part} {r : Place × Parts Part}

theorem gap_of_mem_ways (h : r ∈ gap.ways a parts) : ∃ g, a.after = g ++ r.1.after ∧ IsGap g := by
  obtain ⟨g, hne, hafter, -, hg, -⟩ := mem_ways_run.mp h
  exact ⟨g, hafter, hne, hg⟩

theorem head?_ways_gap {g s : List Char} (hg : IsGap g) (hs : ∀ c ∈ s.head?, isBlank c = false)
    (before : List Char) (parts : Parts Part) :
    (gap.ways ⟨before, g ++ s⟩ parts).head? = some (⟨g.reverse ++ before, s⟩, parts) :=
  head?_ways_run hg.1 hg.2 hs before parts

theorem copula_of_mem_ways (h : r ∈ (leading (oneOf ["is", "are"])).ways a parts) :
    ∃ c, a.after = c ++ r.1.after ∧ IsCopula c := by
  rcases mem_ways_either.mp h with h | h
  · obtain ⟨m, hm, hgap⟩ := mem_ways_both.mp h
    obtain ⟨p, hp, hword⟩ := (mem_ways_anyOf (by simp)).mp hm
    obtain ⟨g, hafter', hg⟩ := gap_of_mem_ways hgap
    have hcopula : ∀ w, p = word w → (∀ v : List Char, v.map foldCase = w.toList →
        v.map foldCase = "is".toList ∨ v.map foldCase = "are".toList) →
        ∃ c, a.after = c ++ r.1.after ∧ IsCopula c := by
      rintro w rfl hw
      obtain ⟨v, hafter, -, hv⟩ := mem_ways_letters hword
      exact ⟨v ++ g, by rw [hafter, hafter', List.append_assoc], .some (hw v hv) hg⟩
    simp only [List.map_cons, List.map_nil, List.mem_cons, List.not_mem_nil, or_false] at hp
    rcases hp with hp | hp
    · exact hcopula "is" hp fun _ => .inl
    · exact hcopula "are" hp fun _ => .inr
  · rw [mem_ways_nothing.mp h]
    exact ⟨[], rfl, .none⟩

theorem word_of_mem_stem {w ending : String} (h : r ∈ (stem w ending).ways a parts) :
    ∃ v, a.after = v ++ r.1.after ∧
      (v.map foldCase = w.toList ∨ v.map foldCase = w.toList ++ ending.toList) := by
  obtain ⟨m, hm, h⟩ := mem_ways_both.mp h
  obtain ⟨v, hafter, -, hv⟩ := mem_ways_letters hm
  rcases mem_ways_either.mp h with h | h
  · obtain ⟨u, hafter', -, hu⟩ := mem_ways_letters h
    refine ⟨v ++ u, by rw [hafter, hafter', List.append_assoc], .inr ?_⟩
    rw [List.map_append, hv, hu]
  · rw [mem_ways_nothing.mp h]
    exact ⟨v, hafter, .inl hv⟩

theorem presence_of_mem_ways (h : r ∈ (anyOf presenceForms).ways a parts) :
    ∃ v, a.after = v ++ r.1.after ∧ ∃ w ∈ presenceWords, v.map foldCase = w.1.toList := by
  obtain ⟨p, hp, hr⟩ := (mem_ways_anyOf (by simp [presenceForms])).mp h
  have hword : ∀ e ∈ presenceWords, p = word e.1 →
      ∃ v, a.after = v ++ r.1.after ∧ ∃ w ∈ presenceWords, v.map foldCase = w.1.toList := by
    rintro e he rfl
    obtain ⟨v, hafter, -, hv⟩ := mem_ways_letters hr
    exact ⟨v, hafter, e, he, hv⟩
  have hstem : ∀ e ∈ presenceWords, ∀ e' ∈ presenceWords, e'.1.toList = e.1.toList ++ "s".toList →
      p = stem e.1 "s" →
      ∃ v, a.after = v ++ r.1.after ∧ ∃ w ∈ presenceWords, v.map foldCase = w.1.toList := by
    rintro e he e' he' hending rfl
    obtain ⟨v, hafter, hv | hv⟩ := word_of_mem_stem hr
    · exact ⟨v, hafter, e, he, hv⟩
    · exact ⟨v, hafter, e', he', hv.trans hending.symm⟩
  simp only [presenceForms, List.mem_cons, List.not_mem_nil, or_false] at hp
  rcases hp with hp | hp | hp | hp | hp | hp
  · exact hstem ("exist", .present) (by decide) ("exists", .present) (by decide) (by decide) hp
  · exact hword ("present", .present) (by decide) hp
  · exact hword ("visible", .visible) (by decide) hp
  · exact hword ("displayed", .visible) (by decide) hp
  · exact hword ("shown", .visible) (by decide) hp
  · exact hstem ("appear", .visible) (by decide) ("appears", .visible) (by decide) (by decide) hp

theorem joint_of_mem_ways (h : r ∈ joining.ways a parts) :
    ∃ j s, a.after = j ++ s ∧ IsJoint j := by
  rcases mem_ways_either.mp h with h | h
  · obtain ⟨m₁, hblanks, h⟩ := mem_ways_chain_cons.mp h
    obtain ⟨m₂, hcomma, -⟩ := mem_ways_chain_cons.mp h
    obtain ⟨g, hafter, -, hg, -⟩ := mem_ways_many.mp hblanks
    obtain ⟨c, t, hafter', hc, -⟩ := mem_ways_one.mp hcomma
    obtain rfl : c = ',' := sign_of_foldCase (by decide) (by decide) (beq_iff_eq.mp hc)
    exact ⟨g ++ [','], t, by rw [hafter, hafter', List.append_assoc, List.singleton_append], .comma hg⟩
  · obtain ⟨m₁, hgap, h⟩ := mem_ways_chain_cons.mp h
    obtain ⟨m₂, hthen, h⟩ := mem_ways_chain_cons.mp h
    obtain ⟨g, hafter₁, hg⟩ := gap_of_mem_ways hgap
    obtain ⟨w, hafter₂, -, hw⟩ := mem_ways_letters hthen
    obtain ⟨g', hafter₃, hg'⟩ := gap_of_mem_ways h
    refine ⟨g ++ (w ++ g'), r.1.after, ?_, .then_ hg hw hg'⟩
    rw [hafter₁, hafter₂, hafter₃]
    simp only [List.append_assoc]

/-- What follows the target of a condition is read only where something ends the condition. -/
theorem endsCondition_of_mem_ways (h : r ∈ (chain conditionRest).ways a parts) :
    ∃ e s, a.after = e ++ s ∧ EndsCondition e := by
  obtain ⟨m₃, hm, h⟩ := mem_ways_chain_append.mp h
  obtain ⟨m₁, hgap, hm⟩ := mem_ways_chain_cons.mp hm
  obtain ⟨m₂, hcopula, hm⟩ := mem_ways_chain_cons.mp hm
  obtain ⟨m, hpresence, rfl⟩ := mem_ways_part.mp hm
  obtain ⟨m₄, hjoint, -⟩ := mem_ways_chain_cons.mp h
  obtain ⟨g, hafter₁, hg⟩ := gap_of_mem_ways hgap
  obtain ⟨c, hafter₂, hc⟩ := copula_of_mem_ways hcopula
  obtain ⟨v, hafter₃, hv⟩ := presence_of_mem_ways hpresence
  obtain ⟨j, s, hafter₄, hj⟩ := joint_of_mem_ways hjoint
  refine ⟨g ++ (c ++ (v ++ j)), s, ?_, .intro hg hc hv hj⟩
  simp only at hafter₄
  rw [hafter₁, hafter₂, hafter₃, hafter₄]
  simp only [List.append_assoc]

theorem parts_of_mem_conditionRest (h : r ∈ (chain conditionRest).ways a parts) :
    ∃ e e', r.2 = (.consequence, e) :: (.question, e') :: parts := by
  obtain ⟨m, hasking, h⟩ := mem_ways_chain_append.mp h
  obtain ⟨m₁, hgap, hasking⟩ := mem_ways_chain_cons.mp hasking
  obtain ⟨m₂, hcopula, hquestion⟩ := mem_ways_chain_cons.mp hasking
  obtain ⟨m₃, hpresence, rfl⟩ := mem_ways_part.mp hquestion
  obtain ⟨m₄, hjoining, h⟩ := mem_ways_chain_cons.mp h
  obtain ⟨m₅, hrest, h⟩ := mem_ways_chain_cons.mp h
  obtain ⟨-, rfl⟩ := mem_ways_textEnd.mp h
  obtain ⟨m₆, htext, rfl⟩ := mem_ways_part.mp hrest
  refine ⟨(m₄.1, m₆.1), (m₂.1, m₃.1), ?_⟩
  simp only [parts_of_mem_ways rfl htext, parts_of_mem_ways rfl hjoining,
    parts_of_mem_ways rfl hpresence, parts_of_mem_ways rfl hcopula, parts_of_mem_ways rfl hgap]

end ways

/-! ## Texts that are read -/

theorem spells_gap {g : List Char} (hg : IsGap g) : gap.Spells g :=
  fun _ _ _ => mem_ways_run.mpr ⟨g, hg.1, rfl, rfl, hg.2, rfl⟩

theorem spells_leading {p : Form} {t g : List Char} (ht : p.Spells t) (hg : IsGap g) :
    (leading p).Spells (t ++ g) :=
  fun before s parts => mem_ways_either.mpr (.inl (ht.both (spells_gap hg) before s parts))

theorem spells_leading_nil (p : Form) : (leading p).Spells [] :=
  fun _ _ _ => mem_ways_either.mpr (.inr (mem_ways_nothing.mpr rfl))

theorem IsCopula.spells {c : List Char} (h : IsCopula c) :
    (leading (oneOf ["is", "are"])).Spells c := by
  rcases h with _ | ⟨hw, hg⟩
  · exact spells_leading_nil _
  · refine spells_leading ?_ hg
    rcases hw with hw | hw
    · exact spells_anyOf (p := word "is") (by simp) (spells_word hw)
    · exact spells_anyOf (p := word "are") (by simp) (spells_word hw)

theorem spells_presence {v : List Char} (hv : ∃ w ∈ presenceWords, v.map foldCase = w.1.toList) :
    (anyOf presenceForms).Spells v := by
  obtain ⟨w, hw, hv⟩ := hv
  have hstem : ∀ w ending : String, stem w ending ∈ presenceForms →
      (v.map foldCase = w.toList ∨ v.map foldCase = w.toList ++ ending.toList) →
      (anyOf presenceForms).Spells v :=
    fun _ _ hp h => spells_anyOf hp (mem_ways_of_stem h)
  have hword : word w.1 ∈ presenceForms → (anyOf presenceForms).Spells v :=
    fun hp => spells_anyOf hp (spells_word hv)
  simp only [presenceWords, List.mem_cons, List.not_mem_nil, or_false] at hw
  rcases hw with rfl | rfl | rfl | rfl | rfl | rfl | rfl | rfl
  · exact hstem "exist" "s" (by simp [presenceForms]) (.inl hv)
  · exact hstem "exist" "s" (by simp [presenceForms]) (.inr hv)
  · exact hword (by simp [presenceForms])
  · exact hword (by simp [presenceForms])
  · exact hword (by simp [presenceForms])
  · exact hword (by simp [presenceForms])
  · exact hstem "appear" "s" (by simp [presenceForms]) (.inl hv)
  · exact hstem "appear" "s" (by simp [presenceForms]) (.inr hv)

theorem IsJoint.spells {j : List Char} (h : IsJoint j) : joining.Spells j := by
  rcases h with hg | ⟨hg, hw, hg'⟩
  · have hcomma : (chain [blanks, word ",", blanks, leading (word "then")]).Spells
        (_ ++ ([','] ++ ([] ++ ([] ++ [])))) :=
      spells_chain_cons (spells_many hg) (spells_chain_cons (spells_word rfl)
        (spells_chain_cons (spells_many (by simp)) (spells_chain_cons (spells_leading_nil _) spells_nil)))
    exact fun before s parts => mem_ways_either.mpr (.inl (hcomma before s parts))
  · have hthen : (chain [gap, word "then", gap]).Spells (_ ++ (_ ++ (_ ++ []))) :=
      spells_chain_cons (spells_gap hg) (spells_chain_cons (spells_word hw)
        (spells_chain_cons (spells_gap hg') spells_nil))
    rw [List.append_nil] at hthen
    exact fun before s parts => mem_ways_either.mpr (.inr (hthen before s parts))

theorem exists_mem_ways_conditionRest {e s : List Char} (he : EndsCondition e) (hs : s ≠ [])
    (hline : s.all onLine = true) (before : List Char) (parts : Parts Part) :
    ∃ r, r ∈ (chain conditionRest).ways ⟨before, e ++ s⟩ parts := by
  obtain ⟨hg, hcopula, hword, hjoint⟩ := he
  simp only [List.append_assoc]
  refine exists_chain_cons (spells_gap hg _ _ _) ?_
  refine exists_chain_cons (hcopula.spells _ _ _) ?_
  refine exists_chain_cons (mem_ways_part.mpr ⟨_, spells_presence hword _ _ _, rfl⟩) ?_
  refine exists_chain_cons (hjoint.spells _ _ _) ?_
  exact exists_mem_ways_toEnd .consequence hs hline _ _

theorem EndsCondition.notMem {e : List Char} (h : EndsCondition e) : '"' ∉ e := by
  obtain ⟨hg, hcopula, hword, hjoint⟩ := h
  have hreads : ∀ {p : Form} {t : List Char}, p.Spells t → p.reads '"' = false → '"' ∉ t := by
    intro p t h hp hmem
    rw [h.reads _ hmem] at hp
    cases hp
  simp only [List.mem_append, not_or]
  exact ⟨hreads (spells_gap hg) rfl, hreads hcopula.spells rfl, hreads (spells_presence hword) rfl,
    hreads hjoint.spells rfl⟩

end PlainSteps.Sentence
