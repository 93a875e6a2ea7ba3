import Mathlib.Data.List.Chain
import PlainSteps.Proofs.LetterCase
import PlainSteps.Text.Lowercase

/-!
# Texts in lower case

Lower case is taken once and for all: a text in lower case is its own lower case
(`Text.lowercase_lowercase`), and to take the letters of ASCII first changes nothing
(`Text.lowercase_lowered`).

The first is a fact about the table of mappings. A character is settled when lower case leaves it alone
(`Settled`); what the table maps to is settled, because the image of each run lies apart from all runs
(`CaseRun.apart`): outside their spans, or between every second of their code points. The second is a fact
about the properties that the table consults, which do not tell a letter of ASCII from its lower case.
-/

namespace PlainSteps.Text

/-! ## The table of mappings -/

/-- The run maps this code point. -/
def CaseRun.Maps (r : CaseRun) (n : Nat) : Prop :=
  r.first ≤ n ∧ n ≤ r.last ∧ (n - r.first) % r.step = 0

/-- The second run maps every second code point, and the images of the first lie between these. -/
def CaseRun.interleaves (r r' : CaseRun) : Bool :=
  (r.step == 2 || r.first == r.last) && r'.step == 2 && (r.image + r'.first) % 2 == 1

/-- None of the runs maps an image of this one. The runs are sorted, so none has to be looked at after one
that begins past the images. -/
def CaseRun.apart (r : CaseRun) : List CaseRun → Bool
  | [] => true
  | r' :: rs => bif r'.last.blt r.image then r.apart rs
      else (r.image + (r.last - r.first)).blt r'.first || r.interleaves r' && r.apart rs

/-- The images of the run are code points of characters, and none is the capital I with a dot. -/
def CaseRun.valid (r : CaseRun) : Bool :=
  ((r.image + (r.last - r.first)).blt 0xD800 ||
    (0xDFFF).blt r.image && (r.image + (r.last - r.first)).blt 0x110000) &&
  ((r.image + (r.last - r.first)).blt 'İ'.toNat || ('İ'.toNat).blt r.image)

/-- The table is sorted, its runs pass the two tests, and those after the first lie above ASCII. -/
theorem caseRuns_sound : (caseRuns.map (·.first)).IsChain (· < ·) ∧
    (caseRuns.all fun r => r.valid && r.apart caseRuns) = true ∧
    (caseRuns.tail.all fun r => (127).blt r.first) = true := by
  decide +kernel

theorem CaseRun.not_maps_of_interleaves {r r' : CaseRun} (h : r.interleaves r' = true) {n : Nat}
    (hn : r.Maps n) : ¬r'.Maps (r.image + (n - r.first)) := by
  obtain ⟨hfirst, hlast, hstep⟩ := hn
  rintro ⟨hfirst', hlast', hstep'⟩
  simp only [interleaves, Bool.and_eq_true, Bool.or_eq_true, beq_iff_eq] at h
  obtain ⟨⟨h, h'⟩, hodd⟩ := h
  rw [h'] at hstep'
  have heven : (n - r.first) % 2 = 0 := by
    rcases h with h | h
    · rwa [h] at hstep
    · omega
  omega

theorem CaseRun.not_maps_of_apart {r : CaseRun} {rs : List CaseRun}
    (hsorted : rs.Pairwise fun r r' => r.first < r'.first) (h : r.apart rs = true) {n : Nat}
    (hn : r.Maps n) : ∀ r' ∈ rs, ¬r'.Maps (r.image + (n - r.first)) := by
  have hlast : n ≤ r.last := hn.2.1
  induction rs with
  | nil => exact List.forall_mem_nil _
  | cons r' rs ih =>
    obtain ⟨hlater, hsorted⟩ := List.pairwise_cons.mp hsorted
    rw [apart] at h
    by_cases hbefore : r'.last < r.image
    · rw [(Nat.blt_eq).mpr hbefore, cond_true] at h
      refine List.forall_mem_cons.mpr ⟨?_, ih hsorted h⟩
      rintro ⟨-, hle, -⟩
      omega
    · rw [Bool.eq_false_iff.mpr (mt Nat.blt_eq.mp hbefore), cond_false, Bool.or_eq_true, Nat.blt_eq,
        Bool.and_eq_true] at h
      rcases h with hpast | ⟨hbetween, hrest⟩
      · rintro r'' hr'' ⟨hle, -, -⟩
        rcases List.mem_cons.mp hr'' with rfl | hr''
        · omega
        · have hlt := hlater r'' hr''
          omega
      · exact List.forall_mem_cons.mpr ⟨not_maps_of_interleaves hbetween hn, ih hsorted hrest⟩

theorem caseRun_spec {r : CaseRun} (hr : r ∈ caseRuns) : r.valid = true ∧
    ∀ n, r.Maps n → ∀ r' ∈ caseRuns, ¬r'.Maps (r.image + (n - r.first)) := by
  obtain ⟨hchain, hall, -⟩ := caseRuns_sound
  have hsorted := List.pairwise_map.mp (List.isChain_iff_pairwise.mp hchain)
  obtain ⟨hvalid, hapart⟩ := Bool.and_eq_true_iff.mp (List.all_eq_true.mp hall r hr)
  exact ⟨hvalid, fun n hn => CaseRun.not_maps_of_apart hsorted hapart hn⟩

theorem above_ascii_of_mem_tail {r : CaseRun} (hr : r ∈ caseRuns.tail) : 127 < r.first := by
  have hall := List.all_eq_true.mp caseRuns_sound.2.2 r hr
  rwa [Nat.blt_eq] at hall

theorem lowerChar_cases (c : Char) :
    (lowerChar c = c ∧ ∀ r ∈ caseRuns, ¬r.Maps c.toNat) ∨
      ∃ r ∈ caseRuns, r.Maps c.toNat ∧ lowerChar c = Char.ofNat (r.image + (c.toNat - r.first)) := by
  have hmaps : ∀ r : CaseRun, (decide (r.first ≤ c.toNat) && decide (c.toNat ≤ r.last) &&
      (c.toNat - r.first) % r.step == 0) = true ↔ r.Maps c.toNat := by
    intro r
    simp [CaseRun.Maps, and_assoc]
  unfold lowerChar
  cases hfind : caseRuns.find? fun r => decide (r.first ≤ c.toNat) && decide (c.toNat ≤ r.last) &&
      (c.toNat - r.first) % r.step == 0 with
  | some r =>
    have hr := List.find?_some hfind
    exact .inr ⟨r, List.mem_of_find?_eq_some hfind, (hmaps r).mp hr, by simp only [hfind]⟩
  | none =>
    refine .inl ⟨by simp only [hfind], fun r hr hr' => ?_⟩
    exact List.find?_eq_none.mp hfind r hr ((hmaps r).mpr hr')

theorem lowerChar_of_not_maps {c : Char} (h : ∀ r ∈ caseRuns, ¬r.Maps c.toNat) : lowerChar c = c := by
  rcases lowerChar_cases c with ⟨heq, -⟩ | ⟨r, hr, hmaps, -⟩
  · exact heq
  · exact absurd hmaps (h r hr)

/-! ## Characters that lower case leaves alone -/

/-- Lower case leaves the character alone. -/
def Settled (c : Char) : Prop := lowerChar c = c ∧ c ≠ 'İ'

theorem toNat_ofNat {n : Nat} (h : n < 0xD800 ∨ 0xDFFF < n ∧ n < 0x110000) :
    (Char.ofNat n).toNat = n := by
  unfold Char.ofNat
  rw [dif_pos (show n.isValidChar from h)]
  rfl

theorem settled_lowerChar {c : Char} (hc : c ≠ 'İ') : Settled (lowerChar c) := by
  rcases lowerChar_cases c with ⟨heq, -⟩ | ⟨r, hr, hmaps, heq⟩
  · exact ⟨by rw [heq, heq], by rwa [heq]⟩
  · obtain ⟨hfirst, hlast, -⟩ := id hmaps
    obtain ⟨hvalid, hapart⟩ := caseRun_spec hr
    simp only [CaseRun.valid, Bool.or_eq_true, Bool.and_eq_true, Nat.blt_eq] at hvalid
    obtain ⟨hchar, hdot⟩ := hvalid
    have himage : (lowerChar c).toNat = r.image + (c.toNat - r.first) := by
      rw [heq]
      apply toNat_ofNat
      omega
    constructor
    · apply lowerChar_of_not_maps
      rw [himage]
      exact hapart _ hmaps
    · intro hcapital
      rw [hcapital] at himage
      omega

theorem Settled.ne_sigma {c : Char} (h : Settled c) : c ≠ 'Σ' := by
  rintro rfl
  have hmapped : lowerChar 'Σ' ≠ 'Σ' := by decide
  exact hmapped h.1

theorem lowercaseFrom_of_settled {s : List Char} (h : ∀ c ∈ s, Settled c) (before : List Char) :
    lowercaseFrom before s = s := by
  induction s generalizing before with
  | nil => rfl
  | cons c s ih =>
    obtain ⟨hc, hs⟩ := List.forall_mem_cons.mp h
    rw [lowercaseFrom]
    simp only [if_neg hc.ne_sigma, if_neg hc.2, hc.1, ih hs]
    rfl

theorem settled_of_mem_lowercaseFrom {before s : List Char} :
    ∀ c ∈ lowercaseFrom before s, Settled c := by
  have hsmall : Settled 'ς' ∧ Settled 'σ' ∧ Settled 'i' ∧ Settled (Char.ofNat 0x307) := by
    unfold Settled
    decide +kernel
  obtain ⟨hfinal, hsigma, hi, hdot⟩ := hsmall
  induction s generalizing before with
  | nil => exact fun c hc => nomatch hc
  | cons d s ih =>
    intro c hc
    rw [lowercaseFrom] at hc
    rcases List.mem_append.mp hc with hc | hc
    · by_cases hd : d = 'Σ'
      · rw [if_pos hd, List.mem_singleton] at hc
        subst hc
        split
        · exact hfinal
        · exact hsigma
      · rw [if_neg hd] at hc
        by_cases hd' : d = 'İ'
        · rw [if_pos hd', List.mem_cons, List.mem_singleton] at hc
          rcases hc with rfl | rfl
          · exact hi
          · exact hdot
        · rw [if_neg hd', List.mem_singleton] at hc
          subst hc
          exact settled_lowerChar hd'
    · exact ih c hc

/-- A text in lower case is its own lower case. -/
theorem lowercase_lowercase (s : String) : lowercase (lowercase s) = lowercase s := by
  have hsettled : ∀ c ∈ lowercaseFrom [] s.toList, Settled c := settled_of_mem_lowercaseFrom
  have hfrom := lowercaseFrom_of_settled hsettled []
  rw [lowercase, lowercase, String.toList_ofList, hfrom]

/-! ## Letters of ASCII -/

theorem capital_iff {c : Char} : ('A' ≤ c ∧ c ≤ 'Z') ↔ 65 ≤ c.toNat ∧ c.toNat ≤ 90 := by
  have hA : 'A'.toNat = 65 := rfl
  have hZ : 'Z'.toNat = 90 := rfl
  rw [← hA, ← hZ]
  rfl

theorem lowerChar_ascii {c : Char} (h : c.toNat < 128) : lowerChar c = lower c := by
  rcases lowerChar_cases c with ⟨heq, hnone⟩ | ⟨r, hr, hmaps, heq⟩
  · have hcapital : ¬('A' ≤ c ∧ c ≤ 'Z') := by
      rw [capital_iff]
      rintro ⟨hle, hle'⟩
      exact hnone ⟨65, 90, 1, 97⟩ List.mem_cons_self ⟨hle, hle', Nat.mod_one _⟩
    rw [heq, lower, if_neg hcapital]
  · obtain ⟨hfirst, hlast, -⟩ := hmaps
    rcases List.mem_cons.mp hr with rfl | hr
    · rw [heq, lower, if_pos (capital_iff.mpr ⟨hfirst, hlast⟩)]
      apply congrArg Char.ofNat
      show 97 + (c.toNat - 65) = c.toNat + 32
      simp only at hfirst
      omega
    · have hother := above_ascii_of_mem_tail hr
      omega

theorem lowered_lowercase (s : String) : lowered (lowercase s) = lowercase s := by
  have hlower : ∀ c ∈ lowercaseFrom [] s.toList, lower c = c := by
    intro c hc
    by_cases hascii : c.toNat < 128
    · rw [← lowerChar_ascii hascii]
      exact (settled_of_mem_lowercaseFrom c hc).1
    · exact lower_of_not_ascii hascii
  rw [lowered, lowercase, String.toList_ofList, List.map_congr_left hlower, List.map_id']

theorem lowercase_tests (c : Char) : lower (lower c) = lower c ∧
    caseIgnorableChars.holds (lower c) = caseIgnorableChars.holds c ∧
    casedChars.holds (lower c) = casedChars.holds c ∧
    (lower c = 'Σ' ↔ c = 'Σ') ∧ (lower c = 'İ' ↔ c = 'İ') ∧
    ((lower c).toNat < 128 ↔ c.toNat < 128) := by
  have h := test_lower (t := fun c => (lower c, caseIgnorableChars.holds c, casedChars.holds c,
    decide (c = 'Σ'), decide (c = 'İ'), decide (c.toNat < 128))) (by decide +kernel) c
  simpa only [Prod.mk.injEq, decide_eq_decide] using h

theorem lowerChar_lower (c : Char) : lowerChar (lower c) = lowerChar c := by
  obtain ⟨htwice, -, -, -, -, hascii⟩ := lowercase_tests c
  by_cases h : c.toNat < 128
  · rw [lowerChar_ascii h, lowerChar_ascii (hascii.mpr h), htwice]
  · rw [lower_of_not_ascii h]

theorem casedNext_lower (s : List Char) : casedNext (s.map lower) = casedNext s := by
  induction s with
  | nil => rfl
  | cons c s ih =>
    obtain ⟨-, hignorable, hcased, -⟩ := lowercase_tests c
    unfold casedNext at ih ⊢
    rw [List.map_cons, List.dropWhile_cons, List.dropWhile_cons, hignorable]
    by_cases hc : caseIgnorableChars.holds c = true
    · rw [if_pos hc, if_pos hc]
      exact ih
    · rw [if_neg hc, if_neg hc]
      exact hcased

theorem lowercaseFrom_lower (before s : List Char) :
    lowercaseFrom (before.map lower) (s.map lower) = lowercaseFrom before s := by
  induction s generalizing before with
  | nil => rfl
  | cons c s ih =>
    obtain ⟨-, -, -, hsigma, hdot, -⟩ := lowercase_tests c
    have hrest := ih (c :: before)
    rw [List.map_cons] at hrest ⊢
    rw [lowercaseFrom, lowercaseFrom, hrest, casedNext_lower, casedNext_lower, lowerChar_lower]
    simp only [hsigma, hdot]

theorem lowercase_lowered (s : String) : lowercase (lowered s) = lowercase s := by
  have hfrom := lowercaseFrom_lower [] s.toList
  rw [lowercase, lowered, String.toList_ofList]
  exact congrArg String.ofList hfrom

end PlainSteps.Text
