import Mathlib.Data.List.Induction
import Mathlib.Data.List.TakeWhile
import PlainSteps.Text.Blank

/-!
# Trimmed texts

* `Text.trimmed_eq_self` : a text without blanks at its ends is its own trimmed text.
* `Text.trimmed_trimmed` : trimming once is enough.
* `Text.trimmed_ne_nil` : a text of more than blanks keeps something.
* `Text.exists_blanks` : a text is its trimmed text between blanks.
* `Text.infix_trimmed` : a trimmed text is a piece of the text.
-/

namespace PlainSteps.Text

variable {p : Char → Bool} {s : List Char}

theorem dropWhile_of_head (h : ∀ c ∈ s.head?, p c = false) : s.dropWhile p = s := by
  cases s with
  | nil => rfl
  | cons c s => simp [h c rfl]

theorem dropEndWhile_of_last (h : ∀ c ∈ s.getLast?, p c = false) : dropEndWhile p s = s := by
  rw [dropEndWhile, dropWhile_of_head (by simpa using h), List.reverse_reverse]

theorem dropEndWhile_append (s : List Char) {t : List Char} (ht : ∀ c ∈ t, p c = true) :
    dropEndWhile p (s ++ t) = dropEndWhile p s := by
  unfold dropEndWhile
  rw [List.reverse_append, List.dropWhile_append_of_pos (by simpa using ht)]

theorem prefix_dropEndWhile (p : Char → Bool) (s : List Char) : dropEndWhile p s <+: s := by
  have h := List.reverse_prefix.mpr (List.dropWhile_suffix (l := s.reverse) p)
  rwa [List.reverse_reverse] at h

theorem prefix_dropEndWhile_append (h : ∀ c ∈ s.getLast?, p c = false) (t : List Char) :
    s <+: dropEndWhile p (s ++ t) := by
  induction t using List.reverseRecOn with
  | nil => simp [dropEndWhile_of_last h]
  | append_singleton t c ih =>
    rw [← List.append_assoc]
    cases hc : p c with
    | true => rwa [dropEndWhile_append_of _ hc]
    | false =>
      rw [dropEndWhile_append_of_not _ hc, List.append_assoc]
      exact List.prefix_append s _

theorem trimmed_eq_self (hfirst : ∀ c ∈ s.head?, isBlank c = false)
    (hlast : ∀ c ∈ s.getLast?, isBlank c = false) : trimmed s = s := by
  rw [trimmed, dropWhile_of_head hfirst, dropEndWhile_of_last hlast]

theorem not_blank_of_head_trimmed {c : Char} (h : c ∈ (trimmed s).head?) : isBlank c = false := by
  obtain ⟨t, ht⟩ := prefix_dropEndWhile isBlank (s.dropWhile isBlank)
  have hhead : (s.dropWhile isBlank).head? = some c := by
    rw [← ht, List.head?_append]
    rw [trimmed] at h
    simp [Option.mem_def.mp h]
  have hnot := List.head?_dropWhile_not isBlank s
  rwa [hhead] at hnot

theorem not_blank_of_last_trimmed {c : Char} (h : c ∈ (trimmed s).getLast?) :
    isBlank c = false := by
  rw [trimmed, dropEndWhile, List.getLast?_reverse] at h
  have hnot := List.head?_dropWhile_not isBlank (s.dropWhile isBlank).reverse
  rwa [Option.mem_def.mp h] at hnot

@[simp] theorem trimmed_trimmed (s : List Char) : trimmed (trimmed s) = trimmed s :=
  trimmed_eq_self (fun _ h => not_blank_of_head_trimmed h) fun _ h => not_blank_of_last_trimmed h

theorem trimmed_ne_nil {c : Char} (hc : c ∈ s) (h : isBlank c = false) : trimmed s ≠ [] := by
  intro hempty
  have hend : ∀ d ∈ s.dropWhile isBlank, isBlank d = true := by
    intro d hd
    exact List.dropWhile_eq_nil_iff.mp (List.reverse_eq_nil_iff.mp hempty) d (List.mem_reverse.mpr hd)
  have hdropped : s.dropWhile isBlank = [] := by
    have hkept : (s.dropWhile isBlank).dropWhile isBlank = s.dropWhile isBlank := by
      refine dropWhile_of_head fun d hd => ?_
      have hnot := List.head?_dropWhile_not isBlank s
      rwa [Option.mem_def.mp hd] at hnot
    rw [← hkept]
    exact List.dropWhile_eq_nil_iff.mpr hend
  rw [List.dropWhile_eq_nil_iff.mp hdropped c hc] at h
  cases h

theorem exists_blanks (s : List Char) : ∃ a b, s = a ++ (trimmed s ++ b) ∧
    (∀ c ∈ a, isBlank c = true) ∧ ∀ c ∈ b, isBlank c = true := by
  have hend : ∀ u : List Char, ∃ b, u = dropEndWhile isBlank u ++ b ∧ ∀ c ∈ b, isBlank c = true := by
    intro u
    refine ⟨(u.reverse.takeWhile isBlank).reverse, ?_, fun c hc => ?_⟩
    · rw [dropEndWhile, ← List.reverse_append, List.takeWhile_append_dropWhile, List.reverse_reverse]
    · exact List.mem_takeWhile_imp (List.mem_reverse.mp hc)
  obtain ⟨b, hb, hblank⟩ := hend (s.dropWhile isBlank)
  refine ⟨s.takeWhile isBlank, b, ?_, fun c hc => List.mem_takeWhile_imp hc, hblank⟩
  rw [trimmed, ← hb, List.takeWhile_append_dropWhile]

theorem infix_trimmed (s : List Char) : trimmed s <:+: s :=
  (prefix_dropEndWhile isBlank _).isInfix.trans (List.dropWhile_suffix isBlank).isInfix

end PlainSteps.Text
