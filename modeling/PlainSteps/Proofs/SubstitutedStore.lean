import PlainSteps.Proofs.Classification
import PlainSteps.Proofs.StoreSentence
import PlainSteps.Proofs.Substitution

/-!
# Stores with texts put in

`Sentence.classify_substituted_store`: a sentence that asks to store a text, as it is written, still
does with the stored texts put in, as long as its source is one line and not empty. The name under
which it stores is then the one in its last word with the texts put in, so a name that is written
between braces may give way to another.

The words before the source and between source and name hold no braces (`Spells.reads`), and a
placeholder holds no blank, so the source and the name are changed each on its own. What results is
read in the way of the sentence as it was written.
-/

namespace PlainSteps.Sentence

open Pattern Form Text

/-! ## Letters in any case -/

theorem not_blank_of_foldCase {c : Char} (h : isAsciiLetter (foldCase c) = true) :
    isBlank c = false := by
  unfold foldCase at h
  split at h
  · rename_i hc
    exact (letter_spec (by simp [isAsciiLetter, hc.1, hc.2])).1
  · split at h
    · rename_i hc
      subst hc
      decide
    · split at h
      · rename_i hc
        subst hc
        decide
      · exact (letter_spec h).1

theorem ascii_of_foldCase {c : Char} (h : (foldCase c).toNat < 128) (hs : foldCase c ≠ 's')
    (hk : foldCase c ≠ 'k') : c.toNat < 128 := by
  unfold foldCase at h hs hk
  split at h
  · rename_i hc
    have hle : c.toNat ≤ 'Z'.toNat := hc.2
    have hZ : 'Z'.toNat = 90 := rfl
    omega
  · rename_i hcase
    rw [if_neg hcase] at hs hk
    split at h
    · rename_i hc
      exact absurd (if_pos hc) hs
    · rename_i hlong
      rw [if_neg hlong] at hs hk
      split at h
      · rename_i hc
        exact absurd (if_pos hc) hk
      · exact h

theorem sign_of_foldCase {c d : Char} (hd : d.toNat < 128) (hsign : isAsciiLetter d = false)
    (h : foldCase c = d) : c = d := by
  subst h
  have hc : c.toNat < 128 :=
    ascii_of_foldCase hd (fun hs => by simp [hs, isAsciiLetter] at hsign)
      (fun hk => by simp [hk, isAsciiLetter] at hsign)
  exact forall_ascii (P := fun c => isAsciiLetter (foldCase c) = false → c = foldCase c)
    (by decide +kernel) hc hsign

/-- The letters that tell the verbs of a store from a number in a list. -/
theorem not_read_by_numbering {c : Char} (h : foldCase c ∈ ['o', 'a', 'r', 'c']) :
    Form.numbering.reads c = false := by
  have hc : c.toNat < 128 := by
    have hall : ∀ d ∈ ['o', 'a', 'r', 'c'], d.toNat < 128 ∧ d ≠ 's' ∧ d ≠ 'k' := by simp
    exact ascii_of_foldCase (hall _ h).1 (hall _ h).2.1 (hall _ h).2.2
  exact forall_ascii (P := fun c => foldCase c ∈ ['o', 'a', 'r', 'c'] →
    Form.numbering.reads c = false) (by decide +kernel) hc h

/-! ## Numbers in a list -/

/-- A number in a list ends in a blank, so it does not begin a text without blanks before a character
that it does not read. -/
theorem numbering_eq_none {u s : List Char} {c : Char} (hu : ∀ d ∈ u, isBlank d = false)
    (hc : Form.numbering.reads c = false) : Form.numbering.match? (u ++ c :: s) = none := by
  refine match?_eq_none fun r hr => ?_
  obtain ⟨t, hread, hbefore, ht⟩ := read_of_mem_ways hr
  have hform : Form.numbering = chain ([blanks, optional (both (word "step") blanks), number, blanks,
    one fun c => c == '.' || c == ')' || c == ':'] ++ [gap]) := rfl
  rw [hform] at hr
  obtain ⟨m, -, hgap⟩ := mem_ways_chain_append.mp hr
  obtain ⟨d, hd, hblank⟩ := blank_of_mem_gap hgap
  have hmem : d ∈ t := by
    rw [hbefore] at hd
    have hstart : (Place.start (u ++ c :: s)).before = [] := rfl
    rw [hstart, List.append_nil, List.head?_reverse] at hd
    exact List.mem_of_getLast? hd
  -- the character is not read, so what is read lies before it
  obtain ⟨v, rfl⟩ : t <+: u := by
    rcases List.append_eq_append_iff.mp hread with ⟨v, rfl, hrest⟩ | ⟨v, hv, -⟩
    · cases v with
      | nil => exact ⟨[], by simp⟩
      | cons e v =>
        obtain ⟨rfl, -⟩ := List.cons.inj hrest
        rw [ht c (by simp)] at hc
        cases hc
    · exact ⟨v, hv.symm⟩
  rw [hu d (List.mem_append_left v hmem)] at hblank
  cases hblank

theorem storeVerbs_spec {w : String} (hw : w ∈ storeVerbs) : ∃ u c v, w.toList = u ++ c :: v ∧
    (∀ d ∈ u, isAsciiLetter d = true) ∧ c ∈ ['o', 'a', 'r', 'c'] := by
  simp only [storeVerbs, List.mem_cons, List.not_mem_nil, or_false] at hw
  rcases hw with rfl | rfl | rfl | rfl
  · exact ⟨['s', 't'], 'o', ['r', 'e'], by decide, List.all_eq_true.mp (by decide), by decide⟩
  · exact ⟨['s'], 'a', ['v', 'e'], by decide, List.all_eq_true.mp (by decide), by decide⟩
  · exact ⟨[], 'r', ['e', 'm', 'e', 'm', 'b', 'e', 'r'], by decide, List.all_eq_true.mp (by decide), by decide⟩
  · exact ⟨[], 'c', ['a', 'p', 't', 'u', 'r', 'e'], by decide, List.all_eq_true.mp (by decide), by decide⟩

theorem numbering_of_verb {v : List Char} {w : String} (hw : w ∈ storeVerbs)
    (hv : v.map foldCase = w.toList) (s : List Char) :
    Form.numbering.match? (v ++ s) = none := by
  obtain ⟨u, c, rest, hsplit, hu, hc⟩ := storeVerbs_spec hw
  rw [hsplit] at hv
  obtain ⟨u', t, rfl, rfl, ht⟩ := List.map_eq_append_iff.mp hv
  obtain ⟨c', rest', rfl, rfl, -⟩ := List.map_eq_cons_iff.mp ht
  rw [List.append_assoc, List.cons_append]
  refine numbering_eq_none (fun d hd => ?_) (not_read_by_numbering hc)
  exact not_blank_of_foldCase (hu _ (List.mem_map_of_mem hd))

/-! ## A sentence as a store reads it -/

theorem head_of_naming {joint : List Char} (h : (chain naming).Spells joint) :
    ∃ b t, joint = b :: t ∧ isBlank b = true := by
  obtain ⟨m, hm, -⟩ := mem_ways_chain_cons.mp (h [] [] [])
  obtain ⟨t, hne, hread, -, hblank, -⟩ := mem_ways_run.mp hm
  obtain ⟨b, t, rfl⟩ := List.exists_cons_of_ne_nil hne
  refine ⟨b, t ++ m.1.after, ?_, hblank b List.mem_cons_self⟩
  rw [List.append_nil] at hread
  exact hread

theorem last_of_naming {joint : List Char} (h : (chain naming).Spells joint) :
    ∃ t b, joint = t ++ [b] ∧ isBlank b = true := by
  obtain ⟨b, hb, hblank⟩ := blank_of_mem_naming (h [] [] [])
  rw [List.append_nil, List.head?_reverse] at hb
  obtain ⟨t, rfl⟩ := List.getLast?_eq_some_iff.mp hb
  exact ⟨t, b, rfl, hblank⟩

theorem verb_of_storeLead {lead : List Char} (h : (chain storeLead).Spells lead)
    (hfirst : ∀ c ∈ lead.head?, isBlank c = false) :
    ∃ v t, lead = v ++ t ∧ ∃ w ∈ storeVerbs, v.map foldCase = w.toList := by
  obtain ⟨m₁, hm₁, h⟩ := mem_ways_chain_cons.mp (h [] [] [])
  obtain ⟨m₂, hm₂, -⟩ := mem_ways_chain_cons.mp h
  obtain ⟨t, hread, -, hblank, -⟩ := mem_ways_many.mp hm₁
  obtain ⟨p, hp, hm₂⟩ := (mem_ways_anyOf (by simp [storeVerbs])).mp hm₂
  obtain ⟨w, hw, rfl⟩ := List.mem_map.mp hp
  obtain ⟨v, hread', -, hv⟩ := mem_ways_letters hm₂
  obtain rfl : t = [] := by
    cases t with
    | nil => rfl
    | cons c t =>
      rw [List.append_nil] at hread
      have hc := hfirst c (by rw [show lead = c :: (t ++ m₁.1.after) from hread]; rfl)
      rw [hblank c List.mem_cons_self] at hc
      cases hc
  refine ⟨v, m₂.1.after, ?_, w, hw, hv⟩
  rw [List.append_nil, List.nil_append] at hread
  exact hread.trans hread'

theorem parts_of_store {raw : List Char} {f : Found Part} (h : Form.store.match? raw = some f)
    (hlast : ∀ c ∈ raw.getLast?, isBlank c = false) :
    ∃ lead joint, raw = lead ++ (f.part .source ++ (joint ++ f.part .name)) ∧
      (chain storeLead).Spells lead ∧ (chain naming).Spells joint ∧
      ∀ c ∈ f.part .name, isBlank c = false := by
  rw [match?, store_eq] at h
  obtain ⟨r, hr, rfl⟩ := exists_way_of_matchAt? h
  obtain ⟨⟨⟨before₁, after₁⟩, parts₁⟩, hm₁, hr₁⟩ := mem_ways_chain_append.mp hr
  obtain ⟨m₂, hm₂, hr₂⟩ := mem_ways_chain_cons.mp hr₁
  obtain ⟨⟨⟨before₂, after₂⟩, parts₂⟩, hsource, rfl⟩ := mem_ways_part.mp hm₂
  obtain ⟨⟨⟨before₃, after₃⟩, parts₃⟩, hm₃, hr₃⟩ := mem_ways_chain_append.mp hr₂
  obtain ⟨lead, hlead, hbefore₁, hspells⟩ := spells_of_mem_ways rfl rfl hm₁
  obtain ⟨source, hread, hbefore₂, -⟩ := read_of_mem_ways hsource
  obtain ⟨joint, hjoint, hbefore₃, hspells'⟩ := spells_of_mem_ways rfl rfl hm₃
  have hparts := parts_of_mem_ways rfl hm₃
  simp only [Place.start] at hlead hbefore₁ hread hbefore₂ hjoint hbefore₃
  subst hlead hread hjoint
  have hafter : ∀ c ∈ after₃.getLast?, isBlank c = false := by
    intro c hc
    refine hlast c ?_
    rw [Option.mem_def] at hc ⊢
    simp only [List.getLast?_append, hc, Option.some_or]
  obtain ⟨hr, hnil⟩ := end_of_mem_ways hafter hr₃
  obtain ⟨⟨⟨before₄, after₄⟩, parts₄⟩, hname, rfl⟩ := mem_ways_part.mp hr
  obtain ⟨name, hread, hbefore₄, hunbroken⟩ := read_of_mem_ways hname
  have hparts' := parts_of_mem_ways rfl hname
  obtain rfl : after₄ = [] := hnil
  have hne : (Part.name == Part.source) = false := rfl
  have hsourceText := Place.upTo_append before₁ source (joint ++ after₃)
  have hnameText := Place.upTo_toEnd before₃ name
  rw [List.append_nil] at hread
  simp only at hparts hparts' hread hbefore₄
  subst hread
  refine ⟨lead, joint, ?_, hspells, hspells', ?_⟩
  · simp only [Found.part, Found.part?, List.find?_cons, hne, hparts, hparts', hbefore₂, hbefore₄,
      beq_self_eq_true, Option.map_some, Option.getD_some, hsourceText, hnameText]
  · simp only [Found.part, Found.part?, List.find?_cons, hbefore₄, beq_self_eq_true, Option.map_some,
      Option.getD_some, hnameText]
    simpa [unbroken, Pattern.reads] using hunbroken

theorem match?_of_storeParts {lead source joint name : List Char}
    (hlead : (chain storeLead).Spells lead) (hne : source ≠ []) (hline : '\n' ∉ source)
    (hjoint : (chain naming).Spells joint) (hname : name ≠ [])
    (hblank : ∀ c ∈ name, isBlank c = false) :
    ∃ f, Form.store.match? (lead ++ (source ++ (joint ++ name))) = some f ∧ f.part .name = name := by
  have hlast : ∀ before parts, ∃ r, r ∈ (chain nameEnding).ways ⟨before, name⟩ parts := by
    intro before parts
    refine ⟨_, mem_ways_last .name (mem_ways_run.mpr ⟨name, hname, ?_, rfl, fun c hc => ?_, rfl⟩)⟩
    · exact (List.append_nil name).symm
    · rw [hblank c hc]
      rfl
  have hrest : ∀ before parts, ∃ r,
      r ∈ (chain (naming ++ nameEnding)).ways ⟨before, joint ++ name⟩ parts := by
    intro before parts
    obtain ⟨r, hr⟩ := hlast (joint.reverse ++ before) parts
    exact ⟨r, mem_ways_chain_append.mpr ⟨_, hjoint before name parts, hr⟩⟩
  have hsource : ∀ before parts, ∃ r, r ∈ (chain (part .source shortText :: (naming ++ nameEnding))).ways
      ⟨before, source ++ (joint ++ name)⟩ parts := by
    intro before parts
    have htext : (⟨source.reverse ++ before, joint ++ name⟩, parts) ∈
        shortText.ways ⟨before, source ++ (joint ++ name)⟩ parts := by
      refine mem_ways_run_few.mpr (mem_ways_run.mpr ⟨source, hne, rfl, rfl, fun c hc => ?_, rfl⟩)
      rw [onLine, bne_iff_ne]
      rintro rfl
      exact hline hc
    obtain ⟨r, hr⟩ := hrest (source.reverse ++ before) _
    exact ⟨r, mem_ways_chain_cons.mpr ⟨_, mem_ways_part.mpr ⟨_, htext, rfl⟩, hr⟩⟩
  obtain ⟨r, hr⟩ : ∃ r, r ∈ Form.store.ways (Place.start (lead ++ (source ++ (joint ++ name)))) [] := by
    obtain ⟨r, hr⟩ := hsource (lead.reverse ++ []) []
    exact ⟨r, store_eq ▸ mem_ways_chain_append.mpr ⟨_, hlead [] _ [], hr⟩⟩
  obtain ⟨f, hf⟩ : ∃ f, Form.store.match? (lead ++ (source ++ (joint ++ name))) = some f :=
    exists_first_some ⟨r, hr⟩ _
  obtain ⟨t, b, rfl, hb⟩ := last_of_naming hjoint
  have htext : lead ++ (source ++ (t ++ [b] ++ name)) = (lead ++ (source ++ t)) ++ b :: name := by
    simp
  exact ⟨f, hf, part_name_of_match hb hname hblank (htext ▸ hf)⟩

/-! ## Texts put in -/

/-- As it is written, without blanks or final marks around it, the sentence asks to store a source under
the name in its last word. -/
structure WritesStore (raw source word : List Char) : Prop where
  first : ∀ c ∈ raw.head?, isBlank c = false
  last : ∀ c ∈ raw.getLast?, isBlank c = false ∧ isFinalMark c = false
  found : ∃ f, Form.store.match? raw = some f ∧ f.part .source = source ∧ f.part .name = word

theorem WritesStore.word_spec {raw source word : List Char} (h : WritesStore raw source word) :
    (∀ c ∈ word, isBlank c = false) ∧ ∀ c ∈ word.getLast?, isFinalMark c = false := by
  obtain ⟨f, hf, -, rfl⟩ := h.found
  obtain ⟨lead, joint, hraw, -, -, hblank⟩ := parts_of_store hf fun c hc => (h.last c hc).1
  refine ⟨hblank, fun c hc => (h.last c ?_).2⟩
  rw [hraw, Option.mem_def]
  simp only [List.getLast?_append, Option.mem_def.mp hc, Option.some_or]

theorem not_continuesName_of_blank {c : Char} (h : isBlank c = true) : continuesName c = false := by
  rw [Bool.eq_false_iff]
  intro hc
  rw [(continuesName_spec hc).1] at h
  cases h

section

variable {lead source joint word : List Char}

/-- The source and the name are changed each on its own, and the words around them are not. -/
theorem substituteChars_store (vars : Variables) (hlead : (chain storeLead).Spells lead)
    (hjoint : (chain naming).Spells joint) (source word : List Char) :
    vars.substituteChars (lead ++ (source ++ (joint ++ word))) =
      lead ++ (vars.substituteChars source ++ (joint ++ vars.substituteChars word)) := by
  have hnoBrace : ∀ {p : Form} {t : List Char}, p.Spells t → p.reads '{' = false → '{' ∉ t := by
    intro p t ht hp hmem
    rw [ht.reads _ hmem] at hp
    cases hp
  obtain ⟨b, t, rfl, hb⟩ := head_of_naming hjoint
  have hclose : b ≠ '}' := by
    rintro rfl
    cases hb
  rw [vars.substituteChars_append (hnoBrace hlead rfl), List.cons_append,
    vars.substituteChars_append_break (not_continuesName_of_blank hb) hclose, ← List.cons_append,
    vars.substituteChars_append (hnoBrace hjoint rfl)]

theorem normalized_store (hlead : (chain storeLead).Spells lead)
    (hfirst : ∀ c ∈ lead.head?, isBlank c = false) (hne : word ≠ [])
    (hlast : ∀ c ∈ word.getLast?, isBlank c = false ∧ isFinalMark c = false) :
    normalized (lead ++ (source ++ (joint ++ word))) = lead ++ (source ++ (joint ++ word)) := by
  obtain ⟨v, t, rfl, w, hw, hv⟩ := verb_of_storeLead hlead hfirst
  have hvne : v ≠ [] := by
    have hall : ∀ w ∈ storeVerbs, w.toList ≠ [] := by decide
    rintro rfl
    exact hall w hw hv.symm
  obtain ⟨c, v, rfl⟩ := List.exists_cons_of_ne_nil hvne
  refine normalized_eq_self ?_ hfirst ?_
  · rw [List.append_assoc]
    exact numbering_of_verb hw hv _
  · intro c hc
    refine hlast c ?_
    rw [← List.append_assoc, ← List.append_assoc, List.getLast?_append,
      List.getLast?_eq_some_getLast hne, Option.some_or] at hc
    rw [List.getLast?_eq_some_getLast hne]
    exact hc

end

/-- With texts put in, the sentence stores under the name in its last word, as long as its source is one
line and not empty. -/
theorem classify_substituted_store (rules : Rules) (vars : Variables) {raw source word : List Char}
    (h : WritesStore raw source word) (hne : vars.substituteChars source ≠ [])
    (hline : '\n' ∉ vars.substituteChars source)
    (hblank : ∀ c ∈ vars.substituteChars word, isBlank c = false)
    (hmark : ∀ c ∈ (vars.substituteChars word).getLast?, isFinalMark c = false)
    (hname : isName (nameIn (vars.substituteChars word)) = true) :
    ∃ target, classify rules (String.ofList (vars.substituteChars raw)) =
      .store target (String.ofList (nameIn (vars.substituteChars word))) := by
  obtain ⟨f, hf, rfl, rfl⟩ := h.found
  obtain ⟨lead, joint, hraw, hlead, hjoint, -⟩ := parts_of_store hf fun c hc => (h.last c hc).1
  have hwordNe : vars.substituteChars (f.part .name) ≠ [] := by
    intro hnil
    rw [hnil] at hname
    cases hname
  have hfirst : ∀ c ∈ lead.head?, isBlank c = false := by
    intro c hc
    refine h.first c ?_
    rw [hraw, List.head?_append, Option.mem_def.mp hc]
    rfl
  obtain ⟨g, hg, hgname⟩ := match?_of_storeParts hlead hne hline hjoint hwordNe hblank
  have htext : normalized (vars.substituteChars raw) = vars.substituteChars raw := by
    rw [hraw, substituteChars_store vars hlead hjoint]
    exact normalized_store hlead hfirst hwordNe fun c hc =>
      ⟨hblank c (List.mem_of_getLast? hc), hmark c hc⟩
  rw [← substituteChars_store vars hlead hjoint, ← hraw] at hg
  have hstore : store? (vars.substituteChars raw) = some (.store (operand (g.part .source))
      (String.ofList (nameIn (vars.substituteChars (f.part .name))))) := by
    rw [store?, hg]
    simp only [Option.bind_eq_bind, Option.bind_some, hgname, hname, if_true]
  refine ⟨_, classify_of_store ?_ (htext ▸ hstore)⟩
  rw [htext]
  intro hnil
  rw [hnil] at hg
  cases hg

end PlainSteps.Sentence
