import PlainSteps.Proofs.PatternWays
import PlainSteps.Sentence.Grammar

/-!
# The ways to read a form

* `Form.first_chain_append` : the parts of a form are read in turn.
* `Form.first_toEnd` : a text up to the end is read whole, or not at all when it has a line feed.
* `Form.first_shortText` : a text is read to its end when what follows cannot begin within it.
* `Form.spells_chain_cons` : a form is read over the texts of its parts, one after the other.
* `Form.ends_in_word` : a form that ends in one of several words is read only where the text does.
* `Form.ways_of_not_reads` : a form up to the end of the text does not pass a character that it does
  not read.
* `Form.first_last` : the last part of a text is read over all that remains.
-/

namespace PlainSteps.Sentence.Form

open Pattern Text

variable {α : Type} {a : Place} {parts : Parts Part} {r : Place × Parts Part}

/-! ## Chains -/

theorem first_chain_cons (p : Form) (ps : List Form) (next : Place → Parts Part → Option α) :
    (chain (p :: ps)).first next = p.first ((chain ps).first next) := by
  cases ps <;> rfl

theorem first_chain_append (ps qs : List Form) (next : Place → Parts Part → Option α) :
    (chain (ps ++ qs)).first next = (chain ps).first ((chain qs).first next) := by
  induction ps with
  | nil => rfl
  | cons p ps ih => rw [List.cons_append, first_chain_cons, first_chain_cons, ih]

theorem ways_chain_cons (p : Form) (ps : List Form) (a : Place) (parts : Parts Part) :
    (chain (p :: ps)).ways a parts = (p.ways a parts).flatMap fun r => (chain ps).ways r.1 r.2 := by
  cases ps with
  | nil => simp [chain, ways]
  | cons q qs => rfl

theorem mem_ways_chain_cons {p : Form} {ps : List Form} : r ∈ (chain (p :: ps)).ways a parts ↔
    ∃ m ∈ p.ways a parts, r ∈ (chain ps).ways m.1 m.2 := by
  cases ps with
  | nil =>
    simp only [chain, mem_ways_nothing]
    constructor
    · intro h
      exact ⟨r, h, rfl⟩
    · rintro ⟨m, hm, rfl⟩
      exact hm
  | cons q qs => exact mem_ways_both

theorem ways_chain_append (ps qs : List Form) (a : Place) (parts : Parts Part) :
    (chain (ps ++ qs)).ways a parts =
      ((chain ps).ways a parts).flatMap fun r => (chain qs).ways r.1 r.2 := by
  induction ps generalizing a parts with
  | nil => simp [chain, ways]
  | cons p ps ih => simp only [List.cons_append, ways_chain_cons, ih, List.flatMap_assoc]

theorem mem_ways_chain_append {ps qs : List Form} : r ∈ (chain (ps ++ qs)).ways a parts ↔
    ∃ m ∈ (chain ps).ways a parts, r ∈ (chain qs).ways m.1 m.2 := by
  rw [ways_chain_append]
  exact List.mem_flatMap

theorem mem_ways_anyOf {ps : List Form} (hps : ps ≠ []) :
    r ∈ (anyOf ps).ways a parts ↔ ∃ p ∈ ps, r ∈ p.ways a parts := by
  induction ps with
  | nil => exact absurd rfl hps
  | cons p ps ih =>
    cases ps with
    | nil => simp [anyOf]
    | cons q qs =>
      rw [anyOf, mem_ways_either, ih (List.cons_ne_nil q qs)]
      · simp [or_and_right, exists_or]
      · exact List.cons_ne_nil q qs

theorem split_at_first {c : Char} {s t u v : List Char} (hs : c ∉ s) (ht : c ∉ t)
    (h : s ++ c :: u = t ++ c :: v) : s = t ∧ u = v := by
  rcases List.append_eq_append_iff.mp h with ⟨w, rfl, hw⟩ | ⟨w, rfl, hw⟩
  all_goals
    rcases List.cons_eq_append_iff.mp hw with ⟨rfl, hw⟩ | ⟨w, rfl, -⟩
    · simp_all
    · simp at hs ht

theorem mem_ways_between {opening closing : Char} : r ∈ (between opening closing).ways a parts ↔
    ∃ inner, closing ∉ inner ∧ a.after = opening :: (inner ++ closing :: r.1.after) ∧
      r.1.before = closing :: (inner.reverse ++ opening :: a.before) ∧ r.2 = parts := by
  have hinside : ∀ {t : List Char}, (∀ c ∈ t, (c != closing) = true) ↔ closing ∉ t := by
    simp [List.forall_mem_ne']
  constructor
  · intro h
    obtain ⟨m, hm, hrest⟩ := mem_ways_chain_cons.mp h
    obtain ⟨n, hn, hlast⟩ := mem_ways_chain_cons.mp hrest
    obtain ⟨c, u, hopen, hc, rfl⟩ := mem_ways_one.mp hm
    obtain ⟨t, hread, hbefore, ht, hparts⟩ := mem_ways_many.mp hn
    obtain ⟨d, rest, hclose, hd, rfl⟩ := mem_ways_one.mp hlast
    obtain rfl : c = opening := beq_iff_eq.mp hc
    obtain rfl : d = closing := beq_iff_eq.mp hd
    refine ⟨t, hinside.mp ht, ?_, congrArg _ hbefore, hparts⟩
    rw [hopen]
    exact congrArg _ (hread.trans (congrArg _ hclose))
  · rintro ⟨inner, hinner, hafter, hbefore, hparts⟩
    refine mem_ways_chain_cons.mpr ⟨_, mem_ways_one.mpr ⟨_, _, hafter, beq_self_eq_true _, rfl⟩, ?_⟩
    refine mem_ways_chain_cons.mpr
      ⟨(⟨inner.reverse ++ opening :: a.before, closing :: r.1.after⟩, parts),
        mem_ways_many.mpr ⟨inner, rfl, rfl, hinside.mpr hinner, rfl⟩, ?_⟩
    exact mem_ways_one.mpr ⟨_, _, rfl, beq_self_eq_true _, by rw [← hbefore, ← hparts]⟩

/-! ## Words -/

theorem mem_ways_letters {cs : List Char} (h : r ∈ (chain (cs.map letter)).ways a parts) :
    ∃ t, a.after = t ++ r.1.after ∧ r.1.before = t.reverse ++ a.before ∧ t.map foldCase = cs := by
  induction cs generalizing a parts with
  | nil =>
    rw [mem_ways_nothing.mp h]
    exact ⟨[], rfl, rfl, rfl⟩
  | cons c cs ih =>
    rw [List.map_cons, mem_ways_chain_cons] at h
    obtain ⟨m, hm, h⟩ := h
    obtain ⟨d, s, hafter, hd, rfl⟩ := mem_ways_one.mp hm
    obtain ⟨t, hs, hbefore, ht⟩ := ih h
    simp only at hs hbefore
    refine ⟨d :: t, by rw [hafter, hs, List.cons_append], ?_, ?_⟩
    · rw [hbefore, List.reverse_cons, List.append_assoc, List.singleton_append]
    · rw [List.map_cons, ht, beq_iff_eq.mp hd]

theorem ways_letters {t cs : List Char} (ht : t.map foldCase = cs) (before s : List Char)
    (parts : Parts Part) :
    (chain (cs.map letter)).ways ⟨before, t ++ s⟩ parts = [(⟨t.reverse ++ before, s⟩, parts)] := by
  induction t generalizing before cs with
  | nil =>
    subst ht
    rfl
  | cons c t ih =>
    subst ht
    have hletter : (letter (foldCase c)).ways ⟨before, c :: (t ++ s)⟩ parts =
        [(⟨c :: before, t ++ s⟩, parts)] := by
      simp [letter, ways]
    rw [List.map_cons, List.map_cons, ways_chain_cons, List.cons_append, hletter, List.flatMap_singleton,
      ih rfl]
    simp

theorem mem_ways_of_letters {t cs : List Char} (ht : t.map foldCase = cs) (before s : List Char)
    (parts : Parts Part) :
    (⟨t.reverse ++ before, s⟩, parts) ∈ (chain (cs.map letter)).ways ⟨before, t ++ s⟩ parts := by
  rw [ways_letters ht]
  exact List.mem_singleton.mpr rfl

theorem mem_ways_of_word {w : String} {t : List Char} (ht : t.map foldCase = w.toList)
    (before s : List Char) (parts : Parts Part) :
    (⟨t.reverse ++ before, s⟩, parts) ∈ (word w).ways ⟨before, t ++ s⟩ parts :=
  mem_ways_of_letters ht before s parts

theorem mem_ways_of_stem {w ending : String} {t : List Char}
    (ht : t.map foldCase = w.toList ∨ t.map foldCase = w.toList ++ ending.toList)
    (before s : List Char) (parts : Parts Part) :
    (⟨t.reverse ++ before, s⟩, parts) ∈ (stem w ending).ways ⟨before, t ++ s⟩ parts := by
  rw [stem, mem_ways_both]
  rcases ht with ht | ht
  · exact ⟨_, mem_ways_of_word ht before s parts, mem_ways_either.mpr (.inr (mem_ways_nothing.mpr rfl))⟩
  · obtain ⟨t₁, t₂, rfl, ht₁, ht₂⟩ := List.map_eq_append_iff.mp ht
    have hword := mem_ways_of_word ht₁ before (t₂ ++ s) parts
    have hending := mem_ways_of_word ht₂ (t₁.reverse ++ before) s parts
    rw [List.append_assoc, List.reverse_append, List.append_assoc]
    exact ⟨_, hword, mem_ways_either.mpr (.inl hending)⟩

theorem last_of_mem_word {w : String} (hw : w.toList ≠ []) (h : r ∈ (word w).ways a parts) :
    ∃ d, r.1.before.head? = some d ∧ w.toList.getLast? = some (foldCase d) := by
  obtain ⟨t, -, hbefore, ht⟩ := mem_ways_letters h
  have hne : t ≠ [] := by
    rintro rfl
    exact hw ht.symm
  refine ⟨t.getLast hne, ?_, ?_⟩
  · rw [hbefore, List.head?_append, List.head?_reverse, List.getLast?_eq_some_getLast hne]
    rfl
  · rw [← ht, List.getLast?_map, List.getLast?_eq_some_getLast hne]
    rfl

theorem ends_in_word {ps : List Form} {ws : List String} (hws : ws ≠ [])
    (hne : ∀ w ∈ ws, w.toList ≠ []) {s : List Char} {c : Char} (hc : isBlank c = false)
    (htext : a.text = s ++ [c])
    (h : r ∈ (chain (ps ++ [oneOf ws, blanks, textEnd])).ways a parts) :
    ∃ w ∈ ws, w.toList.getLast? = some (foldCase c) := by
  obtain ⟨m₁, hm₁, h⟩ := mem_ways_chain_append.mp h
  obtain ⟨m₂, hm₂, h⟩ := mem_ways_chain_cons.mp h
  obtain ⟨m₃, hm₃, h⟩ := mem_ways_chain_cons.mp h
  have hwhole : m₂.1.text = s ++ [c] :=
    (text_of_mem_ways hm₂).trans ((text_of_mem_ways hm₁).trans htext)
  obtain ⟨t, hafter, -, hblank, -⟩ := mem_ways_many.mp hm₃
  obtain ⟨hend, -⟩ := mem_ways_textEnd.mp h
  -- only blanks follow the word, so nothing does
  have hnothing : m₂.1.after = [] := by
    rw [hend, List.append_nil] at hafter
    rw [hafter]
    rcases List.eq_nil_or_concat t with rfl | ⟨t', d, rfl⟩
    · rfl
    · have hlast : d = c := by
        have hl := congrArg List.getLast? hwhole
        simpa [Place.text, hafter] using hl
      have hd := hblank d (by simp)
      rw [hlast, hc] at hd
      cases hd
  have hws' : ws.map word ≠ [] := by simpa using hws
  obtain ⟨p, hp, hword⟩ := (mem_ways_anyOf hws').mp hm₂
  obtain ⟨w, hw, rfl⟩ := List.mem_map.mp hp
  obtain ⟨d, hd, hlast⟩ := last_of_mem_word (hne w hw) hword
  have hdc : d = c := by
    have hrev := congrArg (fun l => l.reverse.head?) hwhole
    simpa [Place.text, hnothing, hd] using hrev
  exact ⟨w, hw, hdc ▸ hlast⟩

/-! ## Texts up to the end -/

theorem first_toEnd (label : Part) (next : Place → Parts Part → Option α) (before : List Char)
    (c : Char) (s : List Char) (parts : Parts Part) :
    (chain [part label longText, textEnd]).first next ⟨before, c :: s⟩ parts =
      if (c :: s).all onLine then
        next ⟨s.reverse ++ c :: before, []⟩
          ((label, ⟨before, c :: s⟩, ⟨s.reverse ++ c :: before, []⟩) :: parts)
      else none := by
  simp only [chain, first, longText]
  by_cases hc : onLine c = true
  · rw [if_pos hc, tryMany_toEnd]
    · simp only [List.all_cons, hc, Bool.true_and, List.isEmpty_nil, if_true]
    · intro b hb
      rw [if_neg]
      simpa using hb
  · rw [if_neg hc]
    simp [hc]

theorem first_toEnd_of_line (label : Part) {s : List Char} (hs : s ≠ []) (hline : s.all onLine = true)
    (next : Place → Parts Part → Option α) (before : List Char) (parts : Parts Part) :
    (chain [part label longText, textEnd]).first next ⟨before, s⟩ parts =
      next ⟨s.reverse ++ before, []⟩ ((label, ⟨before, s⟩, ⟨s.reverse ++ before, []⟩) :: parts) := by
  obtain ⟨c, s, rfl⟩ := List.exists_cons_of_ne_nil hs
  rw [first_toEnd, if_pos hline, List.reverse_cons, List.append_assoc, List.singleton_append]

/-- A form that ends in a text keeps all that follows its lead, when that is one line. The lead is read
in the way that is preferred. -/
theorem match?_toEnd_of_head {lead : List Form} (label : Part) {text before t : List Char}
    (hlead : ((chain lead).ways (Place.start text) []).head? = some (⟨before, t⟩, [])) (hne : t ≠ [])
    (hline : t.all onLine = true) :
    ∃ f, (chain (lead ++ [part label longText, textEnd])).match? text = some f ∧
      f.part label = t := by
  have hrest := first_toEnd_of_line label hne hline
    (fun end_ parts => some (⟨Place.start text, end_, parts⟩ : Found Part)) before []
  rw [match?, matchAt?, first_chain_append]
  refine ⟨_, first_of_head hlead hrest, ?_⟩
  simp only [Found.part_self, Place.upTo_toEnd]

theorem match?_toEnd {lead : List Form} (label : Part) {text before t : List Char}
    (hlead : (chain lead).ways (Place.start text) [] = [(⟨before, t⟩, [])]) (hne : t ≠ [])
    (hline : t.all onLine = true) :
    ∃ f, (chain (lead ++ [part label longText, textEnd])).match? text = some f ∧
      f.part label = t :=
  match?_toEnd_of_head label (by rw [hlead, List.head?_cons]) hne hline

theorem match?_toEnd_eq_none {lead : List Form} (label : Part) {text before t : List Char}
    (hlead : (chain lead).ways (Place.start text) [] = [(⟨before, t⟩, [])]) (hne : t ≠ [])
    (hline : ¬t.all onLine = true) :
    (chain (lead ++ [part label longText, textEnd])).match? text = none := by
  obtain ⟨c, s, rfl⟩ := List.exists_cons_of_ne_nil hne
  rw [match?, matchAt?, first_chain_append, first_of_ways hlead, first_toEnd, if_neg hline]

/-! ## The shortest text -/

/-- A text is read to its end when what follows cannot begin within it. -/
theorem first_shortText {label : Part} {rest : List Form} {s tail : List Char} (hs : s ≠ [])
    (hline : ∀ c ∈ s, onLine c = true) {next : Place → Parts Part → Option α} {before : List Char}
    {x : α}
    (hwithin : ∀ u v parts, s = u ++ v → v ≠ [] →
      (chain rest).ways ⟨u.reverse ++ before, v ++ tail⟩ parts = [])
    (hx : (chain rest).first next ⟨s.reverse ++ before, tail⟩
      ((label, ⟨before, s ++ tail⟩, ⟨s.reverse ++ before, tail⟩) :: parts) = some x) :
    (chain (part label shortText :: rest)).first next ⟨before, s ++ tail⟩ parts = some x := by
  obtain ⟨c, s, rfl⟩ := List.exists_cons_of_ne_nil hs
  obtain ⟨hc, hline⟩ := List.forall_mem_cons.mp hline
  rw [first_chain_cons]
  simp only [first, shortText, List.cons_append, hc, if_true]
  rw [tryFew_append hline]
  · refine tryFew_of_some ?_
    rw [List.reverse_cons, List.append_assoc] at hx
    exact hx
  · intro u v huv hv
    have hnone := hwithin (c :: u) v ((label, ⟨before, c :: (s ++ tail)⟩,
      ⟨u.reverse ++ c :: before, v ++ tail⟩) :: parts) (by rw [huv, List.cons_append]) hv
    rw [List.reverse_cons, List.append_assoc, List.singleton_append] at hnone
    rw [first_eq_findSome, hnone, List.findSome?_nil]

/-! ## Texts that a form is read over -/

theorem spells_word {w : String} {v : List Char} (hv : v.map foldCase = w.toList) : (word w).Spells v :=
  mem_ways_of_word hv

theorem spells_anyOf {ps : List Form} {p : Form} (hp : p ∈ ps) {t : List Char} (h : p.Spells t) :
    (anyOf ps).Spells t :=
  fun before s parts => (mem_ways_anyOf (List.ne_nil_of_mem hp)).mpr ⟨p, hp, h before s parts⟩

theorem spells_chain_cons {p : Form} {ps : List Form} {t u : List Char} (ht : p.Spells t)
    (hu : (chain ps).Spells u) : (chain (p :: ps)).Spells (t ++ u) := by
  intro before s parts
  rw [List.append_assoc, List.reverse_append, List.append_assoc]
  exact mem_ways_chain_cons.mpr ⟨_, ht before (u ++ s) parts, hu (t.reverse ++ before) s parts⟩

theorem exists_chain_cons {p : Form} {ps : List Form} {m : Place × Parts Part}
    (hm : m ∈ p.ways a parts) (h : ∃ r, r ∈ (chain ps).ways m.1 m.2) :
    ∃ r, r ∈ (chain (p :: ps)).ways a parts := by
  obtain ⟨r, hr⟩ := h
  exact ⟨r, mem_ways_chain_cons.mpr ⟨m, hm, hr⟩⟩

theorem spells_nil : (chain []).Spells [] :=
  fun _ _ _ => mem_ways_nothing.mpr rfl

theorem exists_mem_ways_toEnd (label : Part) {s : List Char} (hs : s ≠ [])
    (hline : s.all onLine = true) (before : List Char) (parts : Parts Part) :
    ∃ r, r ∈ (chain [part label longText, textEnd]).ways ⟨before, s⟩ parts := by
  have hread : (⟨s.reverse ++ before, []⟩, parts) ∈ longText.ways ⟨before, s⟩ parts :=
    mem_ways_run.mpr ⟨s, hs, (List.append_nil s).symm, rfl, List.all_eq_true.mp hline, rfl⟩
  refine exists_chain_cons (mem_ways_part.mpr ⟨_, hread, rfl⟩) ?_
  exact ⟨_, mem_ways_textEnd.mpr ⟨rfl, rfl⟩⟩

theorem parts_of_mem_toEnd (lead : List Form) (hlead : (chain lead).unlabelled = true) {label : Part}
    (h : r ∈ (chain (lead ++ [part label longText, textEnd])).ways a parts) :
    ∃ p q, r.2 = (label, p, q) :: parts := by
  obtain ⟨m, hm, h⟩ := mem_ways_chain_append.mp h
  obtain ⟨n, hn, h⟩ := mem_ways_chain_cons.mp h
  obtain ⟨-, rfl⟩ := mem_ways_textEnd.mp h
  obtain ⟨k, hk, rfl⟩ := mem_ways_part.mp hn
  have htext : longText.unlabelled = true := rfl
  exact ⟨m.1, k.1, by rw [parts_of_mem_ways htext hk, parts_of_mem_ways hlead hm]⟩

/-! ## Texts that a form does not pass -/

theorem ways_of_not_reads (ps : List Form) {c : Char}
    (h : (chain (ps ++ [textEnd])).reads c = false) (hc : c ∈ a.after) :
    (chain (ps ++ [textEnd])).ways a parts = [] := by
  refine List.eq_nil_iff_forall_not_mem.mpr fun r hr => ?_
  obtain ⟨t, hafter, -, ht⟩ := read_of_mem_ways hr
  obtain ⟨m, -, hend⟩ := mem_ways_chain_append.mp hr
  obtain ⟨hnil, rfl⟩ := mem_ways_textEnd.mp hend
  rw [hnil, List.append_nil] at hafter
  have hreads := ht c (hafter ▸ hc)
  rw [h] at hreads
  cases hreads

/-! ## The last part -/

theorem end_of_mem_ways {p : Form} (hlast : ∀ c ∈ a.after.getLast?, isBlank c = false)
    (h : r ∈ (chain [p, blanks, textEnd]).ways a parts) : r ∈ p.ways a parts ∧ r.1.after = [] := by
  obtain ⟨m, hm, h⟩ := mem_ways_chain_cons.mp h
  obtain ⟨n, hn, h⟩ := mem_ways_chain_cons.mp h
  obtain ⟨hnil, rfl⟩ := mem_ways_textEnd.mp h
  obtain ⟨t, hafter, hbefore, hblank, hparts⟩ := mem_ways_many.mp hn
  obtain ⟨u, hread, -⟩ := read_of_mem_ways hm
  simp only at hnil hafter hbefore hparts ⊢
  rw [hnil, List.append_nil] at hafter
  obtain rfl : t = [] := by
    rcases List.eq_nil_or_concat t with rfl | ⟨t', d, rfl⟩
    · rfl
    · have hd := hblank d (by simp)
      rw [hread, hafter] at hlast
      rw [hlast d (by simp)] at hd
      cases hd
  have hn : n = m := by
    obtain ⟨⟨b₁, b₂⟩, ps⟩ := n
    obtain ⟨⟨m₁, m₂⟩, ms⟩ := m
    simp_all
  exact ⟨hn ▸ hm, hnil⟩

theorem mem_ways_last {p : Form} (label : Part)
    (hmem : (⟨a.after.reverse ++ a.before, []⟩, parts) ∈ p.ways a parts) :
    (⟨a.after.reverse ++ a.before, []⟩, (label, a, ⟨a.after.reverse ++ a.before, []⟩) :: parts) ∈
      (chain [part label p, blanks, textEnd]).ways a parts := by
  refine mem_ways_chain_cons.mpr ⟨_, mem_ways_part.mpr ⟨_, hmem, rfl⟩, ?_⟩
  refine mem_ways_chain_cons.mpr ⟨_, mem_ways_many.mpr ⟨[], rfl, rfl, by simp, rfl⟩, ?_⟩
  exact mem_ways_textEnd.mpr ⟨rfl, rfl⟩

theorem first_last {p : Form} (hp : p.unlabelled = true) (label : Part)
    (hlast : ∀ c ∈ a.after.getLast?, isBlank c = false)
    (hmem : (⟨a.after.reverse ++ a.before, []⟩, parts) ∈ p.ways a parts)
    (next : Place → Parts Part → Option α) :
    (chain [part label p, blanks, textEnd]).first next a parts =
      next ⟨a.after.reverse ++ a.before, []⟩
        ((label, a, ⟨a.after.reverse ++ a.before, []⟩) :: parts) := by
  refine first_of_all ⟨_, mem_ways_last label hmem⟩ ?_ next
  intro r hr
  obtain ⟨hr, hnil⟩ := end_of_mem_ways hlast hr
  obtain ⟨m, hm, rfl⟩ := mem_ways_part.mp hr
  obtain ⟨t, hafter, hbefore, -⟩ := read_of_mem_ways hm
  have hparts := parts_of_mem_ways hp hm
  simp only at hnil
  rw [hnil, List.append_nil] at hafter
  obtain ⟨⟨m₁, m₂⟩, ms⟩ := m
  simp_all

end PlainSteps.Sentence.Form
