import Mathlib.Data.List.Basic
import PlainSteps.Locator
import PlainSteps.Proofs.LowerCaseText
import PlainSteps.Proofs.WordCounts

/-!
# Stop words at the edges of a hint

`StopWords.sanitize_unquoted`: of a hint that is not quoted, the words from the first to the last that is
no stop word are kept, whatever stands between them, and a hint of nothing but stop words is kept whole.

Which words are stop words is told by `StopWords.Drops`. The stop words are taken in lower case and
compared with a word up to the case of ASCII letters, so a word is one of them, in any letter case, as long
as its own lower case changes letters of ASCII only (`isStop_iff`). A stop word with another capital is
not found in a hint that spells it as it is configured.
-/

namespace PlainSteps

open Text

/-! ## What is kept of a list -/

section

variable {α : Type}

/-- The second list is what the first holds from the first item to the last that is not dropped. -/
structure FromFirstToLast (drops : α → Prop) (items kept : List α) : Prop where
  split : ∃ before after, items = before ++ kept ++ after ∧
    (∀ x ∈ before, drops x) ∧ ∀ x ∈ after, drops x
  first : ∃ x ∈ kept.head?, ¬drops x
  last : ∃ x ∈ kept.getLast?, ¬drops x

/-- The list without the items at either end that satisfy `p`. -/
def withoutEdges (p : α → Bool) (items : List α) : List α :=
  ((items.dropWhile p).reverse.dropWhile p).reverse

theorem withoutEdges_eq_nil {p : α → Bool} {items : List α} (h : ∀ x ∈ items, p x = true) :
    withoutEdges p items = [] := by
  rw [withoutEdges, List.dropWhile_eq_nil_iff.mpr h]
  rfl

theorem fromFirstToLast_withoutEdges {p : α → Bool} {items : List α} (h : ∃ x ∈ items, ¬p x = true) :
    FromFirstToLast (p · = true) items (withoutEdges p items) := by
  have hne : items.dropWhile p ≠ [] := by
    obtain ⟨x, hx, hp⟩ := h
    intro hnil
    exact hp (List.dropWhile_eq_nil_iff.mp hnil x hx)
  have hfirst : ¬p ((items.dropWhile p).head hne) = true :=
    Bool.not_eq_true _ ▸ List.head_dropWhile_not p hne
  -- the first item that is not dropped is also there when the list is read from its end
  have hne' : (items.dropWhile p).reverse.dropWhile p ≠ [] := by
    intro hnil
    exact hfirst (List.dropWhile_eq_nil_iff.mp hnil _ (List.mem_reverse.mpr (List.head_mem hne)))
  have hlast : ¬p (((items.dropWhile p).reverse.dropWhile p).head hne') = true :=
    Bool.not_eq_true _ ▸ List.head_dropWhile_not p hne'
  have hback : items.dropWhile p =
      withoutEdges p items ++ ((items.dropWhile p).reverse.takeWhile p).reverse := by
    rw [withoutEdges, ← List.reverse_append, List.takeWhile_append_dropWhile, List.reverse_reverse]
  refine ⟨⟨items.takeWhile p, ((items.dropWhile p).reverse.takeWhile p).reverse, ?_, ?_, ?_⟩, ?_, ?_⟩
  · rw [List.append_assoc, ← hback, List.takeWhile_append_dropWhile]
  · exact fun x hx => List.mem_takeWhile_imp hx
  · exact fun x hx => List.mem_takeWhile_imp (List.mem_reverse.mp hx)
  · refine ⟨(items.dropWhile p).head hne, ?_, hfirst⟩
    have hkept : withoutEdges p items ≠ [] := fun hnil => hne' (List.reverse_eq_nil_iff.mp hnil)
    have hhead := congrArg List.head? hback
    rw [List.head?_append_of_ne_nil _ hkept] at hhead
    rw [← hhead]
    exact List.head?_eq_some_head hne
  · refine ⟨_, ?_, hlast⟩
    rw [withoutEdges, List.getLast?_reverse]
    exact List.head?_eq_some_head hne'

end

/-! ## Stop words -/

namespace StopWords

/-- The word is a stop word in some letter case, and its own lower case changes letters of ASCII only. -/
def Drops (stop : List String) (word : String) : Prop :=
  (∃ w ∈ stop, lowercase w = lowercase word) ∧ lowercase word = lowered word

theorem sameIgnoringCase_iff {s t : String} : sameIgnoringCase s t = true ↔ lowered s = lowered t := by
  rw [sameIgnoringCase, beq_iff_eq, lowered, lowered, String.ofList_inj]

theorem isStop_iff {stop : List String} {word : String} :
    isStop stop word = true ↔ Drops stop word := by
  simp only [isStop, List.any_eq_true, sameIgnoringCase_iff, lowered_lowercase]
  constructor
  · rintro ⟨w, hw, heq⟩
    have hword : lowercase word = lowercase w := by
      rw [← lowercase_lowered, ← heq, lowercase_lowercase]
    exact ⟨⟨w, hw, hword.symm⟩, hword.trans heq⟩
  · rintro ⟨⟨w, hw, heq⟩, hascii⟩
    exact ⟨w, hw, heq.trans hascii⟩

theorem sanitize_eq (w : StopWords) {kind : ActionKind} {stop : List String}
    (hkind : w.list? kind = some stop) {hint : String} (hhint : unquote hint = trim hint) :
    w.sanitize hint kind =
      if (withoutEdges (isStop stop) (wordsOf hint)).isEmpty then trim hint
      else unquote (" ".intercalate (withoutEdges (isStop stop) (wordsOf hint))) := by
  unfold sanitize
  simp only [hhint, hkind, bne_self_eq_false, Bool.false_eq_true, if_false, wordsOf_trim]
  rfl

/-- Of a hint that is not quoted, the words from the first to the last that is no stop word are kept, less
one pair of quotation marks around them; a hint of stop words alone is kept whole. A word of the
configuration is a stop word as it is spelled there if its lower case changes letters of ASCII only. -/
theorem sanitize_unquoted (w : StopWords) {kind : ActionKind} {stop : List String}
    (hkind : w.list? kind = some stop) {hint : String} (hhint : unquote hint = trim hint) :
    ((∃ word ∈ wordsOf hint, ¬Drops stop word) →
      ∃ kept, FromFirstToLast (Drops stop) (wordsOf hint) kept ∧
        w.sanitize hint kind = unquote (" ".intercalate kept)) ∧
    ((∀ word ∈ wordsOf hint, Drops stop word) → w.sanitize hint kind = trim hint) ∧
    ∀ word ∈ stop, Drops stop word ↔ lowercase word = lowered word := by
  have hdrops : Drops stop = (isStop stop · = true) := funext fun _ => propext isStop_iff.symm
  rw [sanitize_eq w hkind hhint]
  simp only [hdrops]
  refine ⟨fun hsome => ?_, fun hall => ?_, fun word hword => ?_⟩
  · have hkept := fromFirstToLast_withoutEdges hsome
    have hne : ¬(withoutEdges (isStop stop) (wordsOf hint)).isEmpty = true := by
      obtain ⟨x, hx, -⟩ := hkept.first
      rw [List.isEmpty_iff]
      intro hnil
      rw [hnil] at hx
      cases hx
    exact ⟨_, hkept, if_neg hne⟩
  · rw [withoutEdges_eq_nil hall]
    rfl
  · show isStop stop word = true ↔ _
    rw [isStop_iff]
    exact and_iff_right ⟨word, hword, rfl⟩

theorem sanitize_unquoted_umlauts :
    let w : StopWords := { click := ["Öffne", "DEN", "Knopf"], fill := [], verify := [], store := [], wait := [] }
    let hint := " den Öffne \"Jetzt den Kauf\" öffne KNOPF "
    w.list? .click = some ["Öffne", "DEN", "Knopf"] ∧ unquote hint = trim hint ∧
      ¬Drops ["Öffne", "DEN", "Knopf"] "Öffne" ∧ Drops ["Öffne", "DEN", "Knopf"] "öffne" ∧
      ∃ kept, FromFirstToLast (Drops ["Öffne", "DEN", "Knopf"]) (wordsOf hint) kept ∧
        w.sanitize hint .click = unquote (" ".intercalate kept) := by
  intro w hint
  have hkind : w.list? .click = some ["Öffne", "DEN", "Knopf"] := rfl
  have htests : unquote hint = trim hint ∧ ¬isStop ["Öffne", "DEN", "Knopf"] "Öffne" = true ∧
      isStop ["Öffne", "DEN", "Knopf"] "öffne" = true ∧ "Öffne" ∈ wordsOf hint := by
    decide +kernel
  rw [isStop_iff, isStop_iff] at htests
  obtain ⟨hhint, hcapital, hsmall, hword⟩ := htests
  exact ⟨hkind, hhint, hcapital, hsmall, (sanitize_unquoted w hkind hhint).1 ⟨_, hword, hcapital⟩⟩

end StopWords

end PlainSteps
