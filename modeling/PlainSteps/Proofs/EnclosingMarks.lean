import PlainSteps.Proofs.Quotation

/-!
# Marks at the ends of a text

* `StandsBetween` : a text begins and ends with characters that are related, such as marks that match
  (`MarksMatch`) and marks that do not (`MarksDiffer`).
* `unquoted_between` : two marks at the ends of a text are taken off, whether they match or not.
* `unquoted_eq_trimmed_iff` : unquoting changes a text only if two marks stand at its ends.
-/

namespace PlainSteps

open Text

/-- The text begins and ends with two characters that are so related. -/
def StandsBetween (marks : Char → Char → Prop) (s : List Char) : Prop :=
  ∃ opening inner closing, marks opening closing ∧ s = opening :: (inner ++ [closing])

/-- Two marks match: they are the same straight mark, or both typographic. -/
def MarksMatch (opening closing : Char) : Prop :=
  (opening = closing ∧ (opening = '"' ∨ opening = '\'')) ∨
    (opening ∈ ['“', '”', '‘', '’'] ∧ closing ∈ ['“', '”', '‘', '’'])

/-- Two quotation marks that do not match. -/
def MarksDiffer (opening closing : Char) : Prop :=
  (isQuoteMark opening = true ∧ isQuoteMark closing = true) ∧ ¬MarksMatch opening closing

instance (opening closing : Char) : Decidable (MarksMatch opening closing) :=
  inferInstanceAs (Decidable (_ ∨ _))

instance (opening closing : Char) : Decidable (MarksDiffer opening closing) :=
  inferInstanceAs (Decidable (_ ∧ _))

theorem not_standsBetween {marks : Char → Char → Prop} {s : List Char} (opening closing : Char)
    (hfirst : s.head? = some opening) (hlast : s.getLast? = some closing) (h : ¬marks opening closing) :
    ¬StandsBetween marks s := by
  rintro ⟨c, inner, d, hmarks, rfl⟩
  rw [← List.cons_append, List.getLast?_concat] at hlast
  obtain rfl := Option.some.inj hfirst
  obtain rfl := Option.some.inj hlast
  exact h hmarks

theorem marks_of_match {opening closing : Char} (h : MarksMatch opening closing) :
    isQuoteMark opening = true ∧ isQuoteMark closing = true := by
  have hcurved : ∀ c ∈ ['“', '”', '‘', '’'], isQuoteMark c = true := List.all_eq_true.mp rfl
  rcases h with ⟨rfl, rfl | rfl⟩ | ⟨hopening, hclosing⟩
  · exact ⟨rfl, rfl⟩
  · exact ⟨rfl, rfl⟩
  · exact ⟨hcurved _ hopening, hcurved _ hclosing⟩

theorem betweenMarks?_eq_some_iff {s inner : List Char} : betweenMarks? s = some inner ↔
    ∃ opening closing, (isQuoteMark opening = true ∧ isQuoteMark closing = true) ∧
      s = opening :: (inner ++ [closing]) := by
  constructor
  · intro h
    cases s with
    | nil => cases h
    | cons c s =>
      rcases List.eq_nil_or_concat s with rfl | ⟨s, d, rfl⟩
      · cases h
      · rw [List.concat_eq_append] at h ⊢
        simp only [betweenMarks?, List.getLast?_concat, List.dropLast_concat,
          Option.ite_none_right_eq_some, Bool.and_eq_true, Option.some.injEq] at h
        obtain ⟨hmarks, rfl⟩ := h
        exact ⟨c, d, hmarks, rfl⟩
  · rintro ⟨opening, closing, ⟨hopening, hclosing⟩, rfl⟩
    simp [betweenMarks?, hopening, hclosing]

theorem unquoted_between {s inner : List Char} {opening closing : Char}
    (hmarks : isQuoteMark opening = true ∧ isQuoteMark closing = true)
    (hs : trimmed s = opening :: (inner ++ [closing])) : unquoted s = trimmed inner := by
  rw [unquoted, betweenMarks?_eq_some_iff.mpr ⟨opening, closing, hmarks, hs⟩]

theorem unquoted_eq_trimmed_iff {s : List Char} : unquoted s = trimmed s ↔
    ¬StandsBetween (fun c d => isQuoteMark c = true ∧ isQuoteMark d = true) (trimmed s) := by
  constructor
  · rintro heq ⟨opening, inner, closing, hmarks, hs⟩
    -- what stands between the marks is shorter
    have hle := (infix_trimmed inner).length_le
    rw [← unquoted_between hmarks hs, heq, hs] at hle
    simp only [List.length_cons, List.length_append, List.length_nil] at hle
    omega
  · intro hnot
    cases hinner : betweenMarks? (trimmed s) with
    | none => rw [unquoted, hinner]
    | some inner =>
      obtain ⟨opening, closing, hmarks, hs⟩ := betweenMarks?_eq_some_iff.mp hinner
      exact absurd ⟨opening, inner, closing, hmarks, hs⟩ hnot

theorem standsBetween_differ_iff {s : List Char} (h : ¬StandsBetween MarksMatch s) :
    StandsBetween MarksDiffer s ↔
      StandsBetween (fun c d => isQuoteMark c = true ∧ isQuoteMark d = true) s := by
  constructor
  · rintro ⟨opening, inner, closing, ⟨hmarks, -⟩, hs⟩
    exact ⟨opening, inner, closing, hmarks, hs⟩
  · rintro ⟨opening, inner, closing, hmarks, hs⟩
    exact ⟨opening, inner, closing, ⟨hmarks, fun hmatch => h ⟨opening, inner, closing, hmatch, hs⟩⟩, hs⟩

end PlainSteps
