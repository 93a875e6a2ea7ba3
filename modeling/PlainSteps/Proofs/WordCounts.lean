import PlainSteps.Proofs.ConditionEnds

/-!
# How many words a form reads

A text is read by a form of a few words only if it has no more words than the form
(`Form.ReadsWords`). The words of a text put together are at most those of its parts
(`length_words_append_le`), so the words that a form reads are counted piece by piece
(`ReadsWords.both`, `ReadsWords.either`): blanks are none, and what reads no blank is at most one
(`Unbroken.readsWords`). A text has the words of its trimmed text (`words_trimmed`).
-/

namespace PlainSteps

/-! ## The words of a text -/

namespace Text

theorem piecesBy_ne_nil (p : Char → Bool) (s : List Char) : piecesBy p s ≠ [] := by
  cases s with
  | nil => simp [piecesBy]
  | cons c s =>
    rw [piecesBy]
    split
    · simp
    · split <;> simp

theorem piecesBy_append {p : Char → Bool} {b : Char} (hb : p b = true) (s t : List Char) :
    piecesBy p (s ++ b :: t) = piecesBy p s ++ piecesBy p t := by
  induction s with
  | nil => simp [piecesBy, hb]
  | cons c s ih =>
    obtain ⟨w, ws, hw⟩ := List.exists_cons_of_ne_nil (piecesBy_ne_nil p s)
    by_cases hc : p c = true
    · simp [piecesBy, hc, ih]
    · simp [piecesBy, hc, ih, hw]

theorem words_append_blank {b : Char} (hb : isBlank b = true) (s t : List Char) :
    words (s ++ b :: t) = words s ++ words t := by
  rw [words, piecesBy_append hb, List.filter_append]
  rfl

theorem words_cons_blank {c : Char} (hc : isBlank c = true) (s : List Char) :
    words (c :: s) = words s :=
  words_append_blank hc [] s

theorem words_dropWhile (s : List Char) : words (s.dropWhile isBlank) = words s := by
  induction s with
  | nil => rfl
  | cons c s ih =>
    by_cases hc : isBlank c = true
    · rw [List.dropWhile_cons_of_pos hc, words_cons_blank hc, ih]
    · rw [List.dropWhile_cons_of_neg hc]

theorem words_dropEndWhile (s : List Char) : words (dropEndWhile isBlank s) = words s := by
  induction s using List.reverseRecOn with
  | nil => rfl
  | append_singleton s c ih =>
    by_cases hc : isBlank c = true
    · rw [dropEndWhile_append_of s hc, words_append_blank hc, ih]
      exact (List.append_nil _).symm
    · rw [dropEndWhile_append_of_not s (by simpa using hc)]

theorem words_trimmed (s : List Char) : words (trimmed s) = words s := by
  rw [trimmed, words_dropEndWhile, words_dropWhile]

theorem wordsOf_trim (s : String) : wordsOf (trim s) = wordsOf s := by
  rw [wordsOf, wordsOf, toList_trim, words_trimmed]

theorem length_words_cons {c : Char} (hc : isBlank c = false) (s : List Char) :
    (words (c :: s)).length = (words s).length + if s.head?.all isBlank then 1 else 0 := by
  obtain ⟨w, ws, hw⟩ := List.exists_cons_of_ne_nil (piecesBy_ne_nil isBlank s)
  have hpieces : piecesBy isBlank (c :: s) = (c :: w) :: ws := by
    simp [piecesBy, hc, hw]
  cases s with
  | nil =>
    obtain ⟨rfl, rfl⟩ := List.cons.inj hw
    rw [words, hpieces]
    rfl
  | cons d s =>
    by_cases hd : isBlank d = true
    · have hempty : w = [] := by
        rw [piecesBy, if_pos hd] at hw
        exact (List.cons.inj hw).1.symm
      simp [words, hpieces, hw, hd, hempty]
    · have hne : w.isEmpty = false := by
        rw [piecesBy, if_neg hd] at hw
        split at hw <;> obtain ⟨rfl, -⟩ := List.cons.inj hw <;> rfl
      simp [words, hpieces, hw, hd, hne]

theorem length_words_append_le (s t : List Char) :
    (words (s ++ t)).length ≤ (words s).length + (words t).length := by
  induction s with
  | nil => exact Nat.le_add_left _ _
  | cons c s ih =>
    by_cases hc : isBlank c = true
    · rw [List.cons_append, words_cons_blank hc, words_cons_blank hc]
      exact ih
    · rw [Bool.not_eq_true] at hc
      rw [List.cons_append, length_words_cons hc, length_words_cons hc]
      cases s with
      | nil =>
        have hnone : (words []).length = 0 := rfl
        simp only [List.nil_append, List.head?_nil, Option.all_none, if_true, hnone]
        split <;> omega
      | cons d s =>
        -- the same character follows with and without the second text
        rw [List.cons_append] at ih ⊢
        cases hd : isBlank d <;> simp [hd] <;> omega

theorem words_eq_nil_iff {s : List Char} : words s = [] ↔ ∀ c ∈ s, isBlank c = true := by
  induction s with
  | nil => exact ⟨fun _ _ hc => (nomatch hc), fun _ => rfl⟩
  | cons c s ih =>
    rw [List.forall_mem_cons, ← ih]
    by_cases hc : isBlank c = true
    · rw [words_cons_blank hc]
      exact ⟨fun h => ⟨hc, h⟩, fun h => h.2⟩
    · refine ⟨fun h => ?_, fun h => absurd h.1 hc⟩
      rw [Bool.not_eq_true] at hc
      have hlength := length_words_cons hc s
      rw [h, List.length_nil] at hlength
      cases s with
      | nil => simp at hlength
      | cons d s =>
        have hnone : words (d :: s) = [] := List.length_eq_zero_iff.mp (by omega)
        have hd := ih.mp hnone d List.mem_cons_self
        simp [hd] at hlength

theorem words_ne_nil {v : List Char} (hv : v ≠ []) (hlast : ∀ c ∈ v.getLast?, isBlank c = false) :
    words v ≠ [] := by
  intro hnone
  have hblank := words_eq_nil_iff.mp hnone _ (List.getLast_mem hv)
  rw [hlast _ (List.getLast?_eq_some_getLast hv)] at hblank
  cases hblank

theorem length_words_lt {v : List Char} (hv : v ≠ []) (hlast : ∀ c ∈ v.getLast?, isBlank c = false)
    (e : List Char) : (words e).length < (words (v ++ ' ' :: e)).length := by
  have hpos : 0 < (words v).length := List.length_pos_iff.mpr (words_ne_nil hv hlast)
  rw [words_append_blank rfl, List.length_append]
  omega

theorem piecesBy_of_unbroken {p : Char → Bool} {s : List Char} (h : ∀ c ∈ s, p c = false) :
    piecesBy p s = [s] := by
  induction s with
  | nil => rfl
  | cons c s ih =>
    obtain ⟨hc, hs⟩ := List.forall_mem_cons.mp h
    simp [piecesBy, hc, ih hs]

theorem words_of_unbroken {s : List Char} (hne : s ≠ []) (h : ∀ c ∈ s, isBlank c = false) :
    words s = [s] := by
  rw [words, piecesBy_of_unbroken h]
  simp [hne]

theorem length_words_of_unbroken {s : List Char} (h : ∀ c ∈ s, isBlank c = false) :
    (words s).length ≤ 1 := by
  rw [words, piecesBy_of_unbroken h]
  exact List.length_filter_le _ [s]

end Text

/-! ## The words that a form reads -/

namespace Sentence.Form

open Pattern Text

/-- The form reads texts of at most so many words. -/
def ReadsWords (n : Nat) (p : Form) : Prop :=
  ∀ a parts r, r ∈ p.ways a parts → ∃ t, a.after = t ++ r.1.after ∧ (words t).length ≤ n

/-- The form reads no blank. -/
def Unbroken (p : Form) : Prop :=
  ∀ c, p.reads c = true → isBlank c = false

section

variable {m n : Nat} {p q : Form}

theorem ReadsWords.mono (h : ReadsWords m p) (hmn : m ≤ n) : ReadsWords n p := by
  intro a parts r hr
  obtain ⟨t, hafter, ht⟩ := h a parts r hr
  exact ⟨t, hafter, Nat.le_trans ht hmn⟩

theorem ReadsWords.both (hp : ReadsWords m p) (hq : ReadsWords n q) :
    ReadsWords (m + n) (both p q) := by
  intro a parts r hr
  obtain ⟨b, hb, hr⟩ := mem_ways_both.mp hr
  obtain ⟨t, hafter, ht⟩ := hp a parts b hb
  obtain ⟨u, hafter', hu⟩ := hq b.1 b.2 r hr
  refine ⟨t ++ u, by rw [hafter, hafter', List.append_assoc], ?_⟩
  exact Nat.le_trans (length_words_append_le t u) (Nat.add_le_add ht hu)

theorem ReadsWords.either (hp : ReadsWords n p) (hq : ReadsWords n q) :
    ReadsWords n (either p q) := by
  intro a parts r hr
  rcases mem_ways_either.mp hr with hr | hr
  · exact hp a parts r hr
  · exact hq a parts r hr

theorem ReadsWords.part (hp : ReadsWords n p) (label : Part) : ReadsWords n (part label p) := by
  intro a parts r hr
  obtain ⟨b, hb, rfl⟩ := mem_ways_part.mp hr
  exact hp a parts b hb

theorem readsWords_of_blank (hp : ∀ c, p.reads c = true → isBlank c = true) : ReadsWords 0 p := by
  intro a parts r hr
  obtain ⟨t, hafter, -, ht⟩ := read_of_mem_ways hr
  have hnone : words t = [] := words_eq_nil_iff.mpr fun c hc => hp c (ht c hc)
  exact ⟨t, hafter, by rw [hnone, List.length_nil]⟩

theorem Unbroken.readsWords (hp : Unbroken p) : ReadsWords 1 p := by
  intro a parts r hr
  obtain ⟨t, hafter, -, ht⟩ := read_of_mem_ways hr
  exact ⟨t, hafter, length_words_of_unbroken fun c hc => hp c (ht c hc)⟩

theorem ReadsWords.length_words (hp : ReadsWords n p) {t : List Char} (ht : p.Spells t) :
    (words t).length ≤ n := by
  obtain ⟨u, hafter, hu⟩ := hp _ _ _ (ht [] [] [])
  obtain rfl : t = u := List.append_cancel_right hafter
  exact hu

theorem readsWords_nothing : ReadsWords 0 nothing :=
  readsWords_of_blank fun _ h => nomatch h

theorem readsWords_blanks : ReadsWords 0 blanks :=
  readsWords_of_blank fun _ h => h

theorem readsWords_gap : ReadsWords 0 gap :=
  readsWords_of_blank fun _ h => (Bool.or_self _).symm.trans h

theorem readsWords_textEnd : ReadsWords 0 textEnd :=
  readsWords_of_blank fun _ h => nomatch h

theorem ReadsWords.leading (hp : ReadsWords n p) : ReadsWords n (leading p) :=
  (hp.both readsWords_gap).either (readsWords_nothing.mono (Nat.zero_le n))

theorem ReadsWords.optional (hp : ReadsWords n p) : ReadsWords n (optional p) :=
  hp.either (readsWords_nothing.mono (Nat.zero_le n))

theorem ways_of_words (ps : List Form) (h : ReadsWords n (chain (ps ++ [textEnd]))) {a : Place}
    (hlong : n < (words a.after).length) (parts : Parts Part) :
    (chain (ps ++ [textEnd])).ways a parts = [] := by
  refine List.eq_nil_iff_forall_not_mem.mpr fun r hr => ?_
  obtain ⟨t, hafter, ht⟩ := h a parts r hr
  obtain ⟨m, -, hend⟩ := mem_ways_chain_append.mp hr
  obtain ⟨hnil, rfl⟩ := mem_ways_textEnd.mp hend
  rw [hnil, List.append_nil] at hafter
  rw [hafter] at hlong
  omega

end

/-! ## Forms without blanks -/

theorem unbroken_both {p q : Form} : Unbroken (both p q) ↔ Unbroken p ∧ Unbroken q := by
  simp only [Unbroken, reads, Bool.or_eq_true, or_imp, forall_and]

theorem unbroken_either {p q : Form} : Unbroken (either p q) ↔ Unbroken p ∧ Unbroken q := by
  simp only [Unbroken, reads, Bool.or_eq_true, or_imp, forall_and]

theorem unbroken_letters {cs : List Char} (h : ∀ c ∈ cs, isAsciiLetter c = true) :
    Unbroken (chain (cs.map letter)) := by
  induction cs with
  | nil => exact fun _ h => nomatch h
  | cons c cs ih =>
    obtain ⟨hc, hcs⟩ := List.forall_mem_cons.mp h
    have hletter : Unbroken (letter c) := fun d hd =>
      not_blank_of_foldCase ((beq_iff_eq.mp hd).symm ▸ hc)
    cases cs with
    | nil => exact hletter
    | cons d cs => exact unbroken_both.mpr ⟨hletter, ih hcs⟩

theorem unbroken_word {w : String} (h : w.toList.all isAsciiLetter = true) : Unbroken (word w) :=
  unbroken_letters (List.all_eq_true.mp h)

theorem unbroken_stem {w ending : String} (hw : w.toList.all isAsciiLetter = true)
    (hending : ending.toList.all isAsciiLetter = true) : Unbroken (stem w ending) :=
  unbroken_both.mpr ⟨unbroken_word hw,
    unbroken_either.mpr ⟨unbroken_word hending, fun _ h => nomatch h⟩⟩

theorem unbroken_anyOf {ps : List Form} (h : ∀ p ∈ ps, Unbroken p) : Unbroken (anyOf ps) := by
  induction ps with
  | nil => exact fun _ h => nomatch h
  | cons p ps ih =>
    obtain ⟨hp, hps⟩ := List.forall_mem_cons.mp h
    cases ps with
    | nil => exact hp
    | cons q qs => exact unbroken_either.mpr ⟨hp, ih hps⟩

theorem unbroken_oneOf {ws : List String} (h : ws.all (·.toList.all isAsciiLetter) = true) :
    Unbroken (oneOf ws) := by
  refine unbroken_anyOf fun p hp => ?_
  obtain ⟨w, hw, rfl⟩ := List.mem_map.mp hp
  exact unbroken_word (List.all_eq_true.mp h w hw)

end Sentence.Form

end PlainSteps
