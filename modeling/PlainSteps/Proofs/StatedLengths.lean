import PlainSteps.Proofs.ConditionEnds
import PlainSteps.Proofs.WordCharacters

/-!
# Lengths of time in a sentence

A text states a length of time where it begins with digits and perhaps a unit, and a word ends after them
(`StatesLength`). A blank ends a word, so what stands after one does not matter (`statesLength_append`).

* `exists_mem_ways_length` : what the form of a pause reads of a length is there exactly where one is
  stated. Nothing after the length is looked at.
* `number_of_mem_length`, `exists_readPlain?` : the number that is read has a value if its digits are
  those of ASCII.
-/

namespace PlainSteps.Sentence

open Pattern Form Text

/-! ## Lengths of time -/

/-- The units of time. -/
def unitWords : List String :=
  ["ms", "millis", "millisecond", "milliseconds", "s", "sec", "secs", "second", "seconds", "m", "min",
    "mins", "minute", "minutes"]

/-- The forms of these words. -/
def unitForms : List Form :=
  [word "ms", word "millis", stem "millisecond" "s", word "s", stem "sec" "s", stem "second" "s",
    word "m", stem "min" "s", stem "minute" "s"]

/-- A word for a unit of time, or nothing. -/
def IsUnit (t : List Char) : Prop :=
  t = [] ∨ ∃ w ∈ unitWords, t.map foldCase = w.toList

/-- A text that begins with digits and perhaps a unit of time, where a word ends after them. -/
inductive StatesLength : List Char → Prop
  | intro {digits unit rest : List Char} (hne : digits ≠ []) (hdigits : ∀ c ∈ digits, isDigit c = true)
      (hunit : IsUnit unit) (hrest : ∀ c ∈ rest.head?, isWordChar c = false) :
      StatesLength (digits ++ (unit ++ rest))

theorem isWordChar_of_isUnit {t : List Char} (h : IsUnit t) : ∀ c ∈ t, isWordChar c = true := by
  rcases h with rfl | ⟨w, hw, ht⟩
  · simp
  · intro c hc
    have hall : ∀ w ∈ unitWords, w.toList.all isAsciiLetter = true := by decide
    refine isWordChar_of_foldCase (List.all_eq_true.mp (hall w hw) _ ?_)
    rw [← ht]
    exact List.mem_map_of_mem hc

theorem statesLength_append {b : Char} (hb : isBlank b = true) (s t : List Char) :
    StatesLength (s ++ b :: t) ↔ StatesLength s := by
  constructor
  · intro h
    generalize hs : s ++ b :: t = text at h
    obtain ⟨hne, hdigits, hunit, hrest⟩ := h
    rename_i digits unit rest
    have hword : ∀ c ∈ digits ++ unit, isWordChar c = true := by
      intro c hc
      rcases List.mem_append.mp hc with hc | hc
      · exact isWordChar_of_isDigit (hdigits c hc)
      · exact isWordChar_of_isUnit hunit c hc
    rw [← List.append_assoc] at hs
    rcases List.append_eq_append_iff.mp hs with ⟨u, hu, hbt⟩ | ⟨u, rfl, hbt⟩
    · cases u with
      | nil =>
        rw [List.append_nil] at hu
        have h : StatesLength (digits ++ (unit ++ [])) := .intro hne hdigits hunit (by simp)
        rwa [List.append_nil, hu] at h
      | cons c u =>
        -- the number and the unit hold no blank
        obtain ⟨rfl, -⟩ := List.cons.inj hbt
        have hc := hword b (by simp [hu])
        rw [not_wordChar_of_blank hb] at hc
        cases hc
    · rw [List.append_assoc]
      refine .intro hne hdigits hunit fun c hc => hrest c ?_
      cases u with
      | nil => cases hc
      | cons d u => rwa [hbt]
  · rintro ⟨hne, hdigits, hunit, hrest⟩
    rw [List.append_assoc, List.append_assoc]
    refine .intro hne hdigits hunit fun c hc => ?_
    rename_i rest
    cases rest with
    | nil =>
      obtain rfl : b = c := by simpa using hc
      exact not_wordChar_of_blank hb
    | cons d rest => exact hrest c hc

/-! ## The form of a pause -/

/-- Digits with an optional fraction. -/
def decimal : Form := both number (optional (both (word ".") number))

/-- What the form of a pause reads of a length of time. -/
def lengthForms : List Form :=
  [part .number decimal, blanks, optional (part .unit (anyOf unitForms)), wordEdge]

theorem duration_eq : Form.duration =
    chain ([blanks, oneOf ["wait", "pause", "sleep"], optional (both gap (word "for"))] ++
      gap :: lengthForms) := rfl

section ways

variable {a : Place} {parts : Parts Part} {r : Place × Parts Part}

theorem unit_of_mem_ways (h : r ∈ (anyOf unitForms).ways a parts) :
    ∃ u, a.after = u ++ r.1.after ∧ r.1.before = u.reverse ++ a.before ∧ IsUnit u := by
  obtain ⟨p, hp, hr⟩ := (mem_ways_anyOf (by simp [unitForms])).mp h
  obtain ⟨u, hafter, hbefore, -⟩ := read_of_mem_ways hr
  have hread : ∀ v, a.after = v ++ r.1.after → u = v := fun v hv =>
    List.append_cancel_right (hafter.symm.trans hv)
  have hword : ∀ w ∈ unitWords, p = word w → IsUnit u := by
    rintro w hw rfl
    obtain ⟨v, hv, -, hfold⟩ := mem_ways_letters hr
    exact .inr ⟨w, hw, hread v hv ▸ hfold⟩
  have hstem : ∀ w ∈ unitWords, w ++ "s" ∈ unitWords → p = stem w "s" → IsUnit u := by
    rintro w hw hws rfl
    obtain ⟨v, hv, hfold | hfold⟩ := word_of_mem_stem hr
    · exact .inr ⟨w, hw, hread v hv ▸ hfold⟩
    · exact .inr ⟨w ++ "s", hws, by rw [hread v hv, hfold, String.toList_append]⟩
  refine ⟨u, hafter, hbefore, ?_⟩
  simp only [unitForms, List.mem_cons, List.not_mem_nil, or_false] at hp
  rcases hp with hp | hp | hp | hp | hp | hp | hp | hp | hp
  · exact hword "ms" (by decide) hp
  · exact hword "millis" (by decide) hp
  · exact hstem "millisecond" (by decide) (by decide) hp
  · exact hword "s" (by decide) hp
  · exact hstem "sec" (by decide) (by decide) hp
  · exact hstem "second" (by decide) (by decide) hp
  · exact hword "m" (by decide) hp
  · exact hstem "min" (by decide) (by decide) hp
  · exact hstem "minute" (by decide) (by decide) hp

theorem spells_unit {w : String} (hw : w ∈ unitWords) {u : List Char} (hu : u.map foldCase = w.toList) :
    (anyOf unitForms).Spells u := by
  have hword : word w ∈ unitForms → (anyOf unitForms).Spells u := fun hp =>
    spells_anyOf hp (spells_word hu)
  have hstem : ∀ v ending : String, stem v ending ∈ unitForms →
      (u.map foldCase = v.toList ∨ u.map foldCase = v.toList ++ ending.toList) →
      (anyOf unitForms).Spells u := fun _ _ hp h => spells_anyOf hp (mem_ways_of_stem h)
  simp only [unitWords, List.mem_cons, List.not_mem_nil, or_false] at hw
  rcases hw with rfl | rfl | rfl | rfl | rfl | rfl | rfl | rfl | rfl | rfl | rfl | rfl | rfl | rfl
  · exact hword (by simp [unitForms])
  · exact hword (by simp [unitForms])
  · exact hstem "millisecond" "s" (by simp [unitForms]) (.inl hu)
  · exact hstem "millisecond" "s" (by simp [unitForms]) (.inr hu)
  · exact hword (by simp [unitForms])
  · exact hstem "sec" "s" (by simp [unitForms]) (.inl hu)
  · exact hstem "sec" "s" (by simp [unitForms]) (.inr hu)
  · exact hstem "second" "s" (by simp [unitForms]) (.inl hu)
  · exact hstem "second" "s" (by simp [unitForms]) (.inr hu)
  · exact hword (by simp [unitForms])
  · exact hstem "min" "s" (by simp [unitForms]) (.inl hu)
  · exact hstem "min" "s" (by simp [unitForms]) (.inr hu)
  · exact hstem "minute" "s" (by simp [unitForms]) (.inl hu)
  · exact hstem "minute" "s" (by simp [unitForms]) (.inr hu)

theorem unit_of_mem_optional (h : r ∈ (optional (part .unit (anyOf unitForms))).ways a parts) :
    ∃ u, a.after = u ++ r.1.after ∧ r.1.before = u.reverse ++ a.before ∧ IsUnit u := by
  rcases mem_ways_either.mp h with h | h
  · obtain ⟨m, hm, rfl⟩ := mem_ways_part.mp h
    exact unit_of_mem_ways (r := m) hm
  · rw [mem_ways_nothing.mp h]
    exact ⟨[], rfl, rfl, .inl rfl⟩

theorem exists_mem_optional_unit {u : List Char} (hu : IsUnit u) (before s : List Char) :
    ∃ parts', (⟨u.reverse ++ before, s⟩, parts') ∈
      (optional (part .unit (anyOf unitForms))).ways ⟨before, u ++ s⟩ parts := by
  rcases hu with rfl | ⟨w, hw, hu⟩
  · exact ⟨_, mem_ways_either.mpr (.inr (mem_ways_nothing.mpr rfl))⟩
  · exact ⟨_, mem_ways_either.mpr (.inl (mem_ways_part.mpr ⟨_, spells_unit hw hu _ _ _, rfl⟩))⟩

theorem spells_decimal {digits : List Char} (hne : digits ≠ [])
    (hdigits : ∀ c ∈ digits, isDigit c = true) : decimal.Spells digits := by
  intro before s parts
  have hnumber : (⟨digits.reverse ++ before, s⟩, parts) ∈ number.ways ⟨before, digits ++ s⟩ parts :=
    mem_ways_run.mpr ⟨digits, hne, rfl, rfl, hdigits, rfl⟩
  exact mem_ways_both.mpr ⟨_, hnumber, mem_ways_either.mpr (.inr (mem_ways_nothing.mpr rfl))⟩

theorem onEdge_iff {w before after : List Char} (hne : w ≠ []) (hw : ∀ c ∈ w, isWordChar c = true) :
    onEdge isWordChar ⟨w.reverse ++ before, after⟩ = true ↔
      ∀ d ∈ after.head?, isWordChar d = false := by
  have hlast : (w.reverse ++ before).head?.any isWordChar = true := by
    rw [List.head?_append, List.head?_reverse, List.getLast?_eq_some_getLast hne]
    exact hw _ (List.getLast_mem hne)
  rw [onEdge, hlast]
  cases after <;> simp

/-- A length of time is read exactly where one is stated. -/
theorem exists_mem_ways_length {before s : List Char} :
    (∃ r, r ∈ (chain lengthForms).ways ⟨before, s⟩ parts) ↔ StatesLength s := by
  constructor
  · rintro ⟨r, hr⟩
    obtain ⟨m₁, hnumber, hr⟩ := mem_ways_chain_cons.mp hr
    obtain ⟨m₂, hblanks, hr⟩ := mem_ways_chain_cons.mp hr
    obtain ⟨m₃, hunit, hedge⟩ := mem_ways_chain_cons.mp hr
    obtain ⟨m, hdecimal, rfl⟩ := mem_ways_part.mp hnumber
    obtain ⟨n, hdigits, hfraction⟩ := mem_ways_both.mp hdecimal
    obtain ⟨digits, hne, hafter, hbefore, hall, -⟩ := mem_ways_run.mp hdigits
    obtain ⟨g, hafter₂, hbefore₂, hg, -⟩ := mem_ways_many.mp hblanks
    obtain ⟨u, hafter₃, hbefore₃, hu⟩ := unit_of_mem_optional hunit
    -- what follows the digits and is neither a blank nor a word character ends the length
    have hends : ∀ c t, n.1.after = c :: t → isWordChar c = false → StatesLength s := by
      intro c t ht hc
      have h : StatesLength (digits ++ ([] ++ c :: t)) := .intro hne hall (.inl rfl) (by simpa using hc)
      rwa [List.nil_append, ← ht, ← hafter] at h
    rcases mem_ways_either.mp hfraction with hfraction | hfraction
    · obtain ⟨m', hpoint, -⟩ := mem_ways_both.mp hfraction
      obtain ⟨c, t, ht, hc, -⟩ := mem_ways_one.mp hpoint
      obtain rfl : c = '.' := sign_of_foldCase (by decide) (by decide) (beq_iff_eq.mp hc)
      exact hends '.' t ht (by decide)
    · obtain rfl := mem_ways_nothing.mp hfraction
      cases g with
      | cons c g =>
        exact hends c _ hafter₂ (not_wordChar_of_blank (hg c List.mem_cons_self))
      | nil =>
        simp only [List.nil_append, List.reverse_nil] at hafter₂ hbefore₂
        obtain ⟨hedge, -⟩ := mem_ways_edge.mp hedge
        have hwhole : m₃.1 = ⟨(digits ++ u).reverse ++ before, m₃.1.after⟩ := by
          rw [List.reverse_append, List.append_assoc, ← hbefore, ← hbefore₂, ← hbefore₃]
        rw [hwhole, onEdge_iff (by simp [hne])] at hedge
        · have h : StatesLength (digits ++ (u ++ m₃.1.after)) := .intro hne hall hu hedge
          rwa [← hafter₃, ← hafter₂, ← hafter] at h
        · exact List.forall_mem_append.mpr
            ⟨fun c hc => isWordChar_of_isDigit (hall c hc), isWordChar_of_isUnit hu⟩
  · rintro ⟨hne, hdigits, hunit, hrest⟩
    rename_i digits unit rest
    refine exists_chain_cons (mem_ways_part.mpr ⟨_, spells_decimal hne hdigits _ _ _, rfl⟩) ?_
    refine exists_chain_cons (mem_ways_many.mpr ⟨[], rfl, rfl, by simp, rfl⟩) ?_
    obtain ⟨parts', hmem⟩ := exists_mem_optional_unit hunit (digits.reverse ++ before) rest
    refine exists_chain_cons hmem ⟨_, mem_ways_edge.mpr ⟨?_, rfl⟩⟩
    rw [← List.append_assoc, ← List.reverse_append, onEdge_iff (by simp [hne])]
    · exact hrest
    · exact List.forall_mem_append.mpr
        ⟨fun c hc => isWordChar_of_isDigit (hdigits c hc), isWordChar_of_isUnit hunit⟩

end ways

/-! ## The number of a length -/

theorem number_of_mem_length {a : Place} {r : Place × Parts Part}
    (h : r ∈ (chain lengthForms).ways a []) :
    ∃ m ∈ decimal.ways a [], r.2.find? (·.1 == .number) = some (.number, a, m.1) := by
  obtain ⟨m₁, hnumber, h⟩ := mem_ways_chain_cons.mp h
  obtain ⟨m₂, hblanks, h⟩ := mem_ways_chain_cons.mp h
  obtain ⟨m₃, hunit, hedge⟩ := mem_ways_chain_cons.mp h
  obtain ⟨m, hdecimal, rfl⟩ := mem_ways_part.mp hnumber
  refine ⟨m, hdecimal, ?_⟩
  rw [(mem_ways_edge.mp hedge).2]
  have hparts : m₂.2 = (.number, a, m.1) :: m.2 := parts_of_mem_ways rfl hblanks
  rcases mem_ways_either.mp hunit with hunit | hunit
  · obtain ⟨n, hn, rfl⟩ := mem_ways_part.mp hunit
    have hunlabelled : (anyOf unitForms).unlabelled = true := by decide
    rw [parts_of_mem_ways hunlabelled hn, hparts]
    rfl
  · rw [mem_ways_nothing.mp hunit, hparts]
    rfl

theorem not_point_of_digit {c : Char} (h : isAsciiDigit c = true) : (c != '.') = true := by
  rw [bne_iff_ne]
  rintro rfl
  cases h

theorem readPlain?_digits {ds rest : List Char} (hds : ∀ c ∈ ds, isAsciiDigit c = true)
    (hrest : rest = [] ∨ ∃ fs, rest = '.' :: fs ∧ ∀ c ∈ fs, isAsciiDigit c = true) :
    ∃ n, Number.readPlain? (ds ++ rest) = some n := by
  have hpoint : ∀ c ∈ ds, (c != '.') = true := fun c hc => not_point_of_digit (hds c hc)
  rcases hrest with rfl | ⟨fs, rfl, hfs⟩
  · have hwhole : ds.takeWhile (· != '.') = ds := List.takeWhile_eq_self_iff.mpr hpoint
    have hnone : ds.dropWhile (· != '.') = [] := List.dropWhile_eq_nil_iff.mpr hpoint
    refine ⟨Number.ofParts ds [] 0, ?_⟩
    rw [List.append_nil, Number.readPlain?, hwhole, hnone]
    simp [List.all_eq_true.mpr hds]
  · have hwhole : (ds ++ '.' :: fs).takeWhile (· != '.') = ds := by
      rw [List.takeWhile_append_of_pos hpoint]
      simp
    have hfraction : (ds ++ '.' :: fs).dropWhile (· != '.') = '.' :: fs := by
      rw [List.dropWhile_append_of_pos hpoint]
      simp
    refine ⟨Number.ofParts ds fs 0, ?_⟩
    rw [Number.readPlain?, hwhole, hfraction]
    simp [List.all_eq_true.mpr hds, List.all_eq_true.mpr hfs]

theorem exists_readPlain? {a : Place} {parts : Parts Part} {m : Place × Parts Part}
    (h : m ∈ decimal.ways a parts) (hascii : ∀ c ∈ a.after, isDigit c = true → isAsciiDigit c = true) :
    ∃ n, Number.readPlain? (a.upTo m.1) = some n := by
  have hread := (upTo_of_mem_ways h).1
  obtain ⟨n, hwhole, h⟩ := mem_ways_both.mp h
  obtain ⟨ds, -, hafter, -, hdigits, -⟩ := mem_ways_run.mp hwhole
  have hds : ∀ c ∈ ds, isAsciiDigit c = true := fun c hc =>
    hascii c (by simp [hafter, hc]) (hdigits c hc)
  rcases mem_ways_either.mp h with h | h
  · obtain ⟨m', hpoint, h⟩ := mem_ways_both.mp h
    obtain ⟨c, t, ht, hc, rfl⟩ := mem_ways_one.mp hpoint
    obtain rfl : c = '.' := sign_of_foldCase (by decide) (by decide) (beq_iff_eq.mp hc)
    obtain ⟨fs, -, hfraction, -, hfs, -⟩ := mem_ways_run.mp h
    simp only at hfraction
    rw [hafter, ht, hfraction, ← List.cons_append, ← List.append_assoc] at hread
    rw [← List.append_cancel_right hread]
    refine readPlain?_digits hds (.inr ⟨fs, rfl, fun c hc => hascii c ?_ (hfs c hc)⟩)
    simp [hafter, ht, hfraction, hc]
  · rw [mem_ways_nothing.mp h] at hread ⊢
    rw [hafter] at hread
    rw [← List.append_cancel_right hread, ← List.append_nil ds]
    exact readPlain?_digits hds (.inl rfl)

end PlainSteps.Sentence
