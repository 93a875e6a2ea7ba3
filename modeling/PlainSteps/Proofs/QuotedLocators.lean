import Mathlib.Data.List.Forall2
import PlainSteps.Locator

/-!
# A hint stays between the quotes of its locators

A locator with a quoted part is read as a browser's driver reads it (`Locator.quotedPart?`): the part
begins after the first double quote, a backslash takes the next character as it is, and the first other
double quote ends it. What is escaped is read back, and what follows is left over
(`Locator.quotedRest?_escaped`).

`StopWords.resolver_contained`: each locator of a hint is made by a template (`Locator.templates`). From one
with quotes the hint is read back, between what the template has before it and what it has after it; one
without quotes puts the hint at its end. So hints with different sanitized texts have different locators,
template by template.
-/

namespace PlainSteps

namespace Locator

/-! ## Quoted parts -/

/-- A quoted part after its opening quote, and what follows its closing one. -/
def quotedRest? : List Char → Option (List Char × List Char)
  | [] => none
  | '"' :: s => some ([], s)
  | '\\' :: c :: s => (quotedRest? s).map fun r => (c :: r.1, r.2)
  | c :: s => (quotedRest? s).map fun r => (c :: r.1, r.2)

/-- What stands before the first double quote of a locator, the quoted part that begins there, and what
follows that part. -/
def quotedPart? (locator : String) : Option (String × String × String) :=
  let before := locator.toList.takeWhile (· != '"')
  let rest := (locator.toList.dropWhile (· != '"')).drop 1
  (quotedRest? rest).map fun r => (String.ofList before, String.ofList r.1, String.ofList r.2)

/-- The characters that stand for one character between quotes. -/
def escapedChar (c : Char) : List Char :=
  if c == '\\' || c == '"' then ['\\', c] else [c]

theorem toList_quotedInLocator (s : String) :
    (quotedInLocator s).toList = s.toList.flatMap escapedChar := by
  rw [quotedInLocator, String.toList_ofList]
  rfl

theorem quotedRest?_plain {c : Char} (hquote : c ≠ '"') (hslash : c ≠ '\\') (s : List Char) :
    quotedRest? (c :: s) = (quotedRest? s).map fun r => (c :: r.1, r.2) := by
  rw [quotedRest?]
  · exact hquote
  · intro d t h _
    exact hslash h

theorem quotedRest?_escapedChar (c : Char) (s : List Char) :
    quotedRest? (escapedChar c ++ s) = (quotedRest? s).map fun r => (c :: r.1, r.2) := by
  by_cases h : c == '\\' || c == '"'
  · rw [escapedChar, if_pos h]
    rfl
  · obtain ⟨hslash, hquote⟩ : c ≠ '\\' ∧ c ≠ '"' := by simpa using h
    rw [escapedChar, if_neg h]
    exact quotedRest?_plain hquote hslash s

/-- What is escaped is read back up to the quote after it. -/
theorem quotedRest?_escaped (s rest : List Char) :
    quotedRest? (s.flatMap escapedChar ++ '"' :: rest) = some (s, rest) := by
  induction s with
  | nil => rfl
  | cons c s ih => rw [List.flatMap_cons, List.append_assoc, quotedRest?_escapedChar, ih, Option.map_some]

/-! ## Templates -/

/-- What a locator has around a hint. -/
inductive Template where
  /-- The hint stands between double quotes. -/
  | quoted (before after : String)
  /-- The hint stands at the end, as it is. -/
  | bare (before : String)

/-- The templates for a sanitized hint, in the order in which their locators are tried. -/
def templates (hint : String) : ActionKind → List Template
  | .click =>
    [.quoted "role=button[name=" "]", .quoted "role=link[name=" "]", .quoted "text=" "",
      .quoted "[aria-label=" "]", .quoted "[title=" "]", .quoted "[value=" "]",
      .quoted "[data-testid=" "]", .bare "text="]
  | .fill =>
    [.quoted "[placeholder=" "]", .quoted "[name=" "]", .quoted "[aria-label=" "]",
      .quoted "role=textbox[name=" "]", .quoted "[id=" "]", .quoted "[data-testid=" "]",
      .quoted "[placeholder*=" " i]"]
  | .store =>
    (if looksLikeSelector hint then [.bare "css="] else []) ++
      [.quoted "[data-testid=" "]", .quoted "[aria-label=" "]", .quoted "[name=" "]", .bare "text="]
  | .waitFor | .conditional => if looksLikeSelector hint then [.bare "css="] else [.bare "text="]
  | .verify => [.bare "text="]
  | .navigate | .waitDuration | .unknown => []

namespace Template

/-- The locator that a template makes of a hint. -/
def locator (hint : String) : Template → String
  | quoted before after => before ++ "\"" ++ quotedInLocator hint ++ ("\"" ++ after)
  | bare before => before ++ hint

/-- The hint is contained in a locator of the template: between its quotes it is read back, and without
quotes nothing follows it. -/
def Contains (hint locator : String) : Template → Prop
  | quoted before after => quotedPart? locator = some (before, hint, after)
  | bare before => locator = before ++ hint

/-- The first double quote of a locator is that before the hint. -/
def OpensAtHint : Template → Prop
  | quoted before _ => '"' ∉ before.toList
  | bare _ => True

instance (t : Template) : Decidable t.OpensAtHint :=
  match t with
  | quoted before _ => inferInstanceAs (Decidable ('"' ∉ before.toList))
  | bare _ => inferInstanceAs (Decidable True)

theorem quotedPart?_locator {before : String} (h : '"' ∉ before.toList) (hint after : String) :
    quotedPart? (locator hint (quoted before after)) = some (before, hint, after) := by
  have hlist : (locator hint (quoted before after)).toList =
      before.toList ++ '"' :: (hint.toList.flatMap escapedChar ++ '"' :: after.toList) := by
    simp [locator, toList_quotedInLocator]
  have hbefore : ∀ c ∈ before.toList, (c != '"') = true := by
    intro c hc
    exact bne_iff_ne.mpr fun heq => h (heq ▸ hc)
  have htake : (locator hint (quoted before after)).toList.takeWhile (· != '"') = before.toList := by
    rw [hlist, List.takeWhile_append_of_pos hbefore, List.takeWhile_cons_of_neg (by decide),
      List.append_nil]
  have hdrop : (locator hint (quoted before after)).toList.dropWhile (· != '"') =
      '"' :: (hint.toList.flatMap escapedChar ++ '"' :: after.toList) := by
    rw [hlist, List.dropWhile_append_of_pos hbefore, List.dropWhile_cons_of_neg (by decide)]
  rw [quotedPart?, htake, hdrop, List.drop_succ_cons, List.drop_zero, quotedRest?_escaped]
  simp

theorem contains_locator {t : Template} (h : t.OpensAtHint) (hint : String) :
    t.Contains hint (t.locator hint) := by
  cases t with
  | quoted before after => exact quotedPart?_locator h hint after
  | bare before => rfl

/-- A locator contains one hint for each template. -/
theorem Contains.unique {t : Template} {hint hint' locator : String} (h : t.Contains hint locator)
    (h' : t.Contains hint' locator) : hint = hint' := by
  cases t with
  | quoted before after =>
    have hparts := Option.some.inj (h.symm.trans h')
    exact congrArg (fun parts => parts.2.1) hparts
  | bare before =>
    have heq : before.toList ++ hint.toList = before.toList ++ hint'.toList := by
      rw [← String.toList_append, ← String.toList_append, ← h, ← h']
    exact String.toList_inj.mp (List.append_cancel_left heq)

end Template

theorem opensAtHint_of_mem {hint : String} {kind : ActionKind} {t : Template}
    (h : t ∈ templates hint kind) : t.OpensAtHint := by
  have hall : ∀ t ∈ templates hint kind, t.OpensAtHint := by
    cases kind <;> simp only [templates]
    all_goals first
      | decide
      | split <;> decide
  exact hall t h

theorem candidates_eq {hint : String} (h : hint ≠ "") (kind : ActionKind) :
    candidates hint kind = (templates hint kind).map (·.locator hint) := by
  have hempty : hint.isEmpty = false := by simpa using h
  cases kind with
  | store | waitFor | conditional =>
    by_cases hselector : looksLikeSelector hint = true
    all_goals simp [candidates, templates, hempty, hselector, Template.locator, withAttribute]
  | _ => simp [candidates, templates, hempty, Template.locator, withRole, withAttribute]

theorem exists_template {w : StopWords} {hint locator : String} {kind : ActionKind} {i : Nat}
    (h : (w.resolver hint kind)[i]? = some locator) :
    ∃ t, (templates (w.sanitize hint kind) kind)[i]? = some t ∧
      t.Contains (w.sanitize hint kind) locator := by
  have hne : w.sanitize hint kind ≠ "" := by
    intro hempty
    simp [StopWords.resolver, candidates, hempty] at h
  rw [StopWords.resolver, candidates_eq hne, List.getElem?_map, Option.map_eq_some_iff] at h
  obtain ⟨t, ht, rfl⟩ := h
  exact ⟨t, ht, Template.contains_locator (opensAtHint_of_mem (List.mem_of_getElem? ht)) _⟩

end Locator

open Locator

namespace StopWords

/-- The locators of a hint are those of the templates, in their order, and each contains the sanitized
hint and nothing more of it. For clicks and fills two hints with different sanitized texts have different
locators at every place. -/
theorem resolver_contained (w : StopWords) {hint : String} {kind : ActionKind}
    (h : w.sanitize hint kind ≠ "") :
    List.Forall₂ (Template.Contains (w.sanitize hint kind)) (w.resolver hint kind)
        (templates (w.sanitize hint kind) kind) ∧
      ∀ (w' : StopWords) (hint' : String), kind = .click ∨ kind = .fill →
        w'.sanitize hint' kind ≠ w.sanitize hint kind →
        ∀ (i : Nat) (c c' : String), (w.resolver hint kind)[i]? = some c →
          (w'.resolver hint' kind)[i]? = some c' → c ≠ c' := by
  constructor
  · rw [resolver, candidates_eq h, List.forall₂_map_left_iff, List.forall₂_same]
    exact fun t ht => Template.contains_locator (opensAtHint_of_mem ht) _
  · intro w' hint' hkind hsanitized i c c' hc hc' heq
    obtain ⟨t, ht, hcontains⟩ := exists_template hc
    obtain ⟨t', ht', hcontains'⟩ := exists_template hc'
    -- the templates for clicks and fills are the same for all hints
    have huniform : ∀ s s', templates s kind = templates s' kind := by
      rcases hkind with rfl | rfl <;> exact fun _ _ => rfl
    rw [huniform _ (w.sanitize hint kind), ht] at ht'
    obtain rfl := Option.some.inj ht'
    exact hsanitized ((heq ▸ hcontains').unique hcontains)

/-- Quotes and backslashes in a hint, one of which stands at its end, as if to close the quoted part or to
take its closing quote away. -/
theorem resolver_contained_unruly :
    let w : StopWords := { click := ["the", "button"], fill := [], verify := [], store := [], wait := [] }
    let hint := "the a\"] >> b\\ button"
    let hint' := "the a\\\"] >> b\\ button"
    w.sanitize hint .click = "a\"] >> b\\" ∧ w.sanitize hint' .click ≠ w.sanitize hint .click ∧
      List.Forall₂ (Template.Contains (w.sanitize hint .click)) (w.resolver hint .click)
        (templates (w.sanitize hint .click) .click) ∧
      ∀ (i : Nat) (c c' : String), (w.resolver hint .click)[i]? = some c →
        (w.resolver hint' .click)[i]? = some c' → c ≠ c' := by
  intro w hint hint'
  have hsanitized : w.sanitize hint .click = "a\"] >> b\\" := by decide +kernel
  have hne : w.sanitize hint .click ≠ "" := by
    rw [hsanitized]
    decide
  have hother : w.sanitize hint' .click ≠ w.sanitize hint .click := by
    decide +kernel
  obtain ⟨hcontained, hapart⟩ := resolver_contained w hne
  exact ⟨hsanitized, hother, hcontained, hapart w hint' (.inl rfl) hother⟩

end StopWords

end PlainSteps
