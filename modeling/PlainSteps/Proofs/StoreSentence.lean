import PlainSteps.Proofs.AsciiCharacters
import PlainSteps.Proofs.FormWays
import PlainSteps.Proofs.Quotation

/-!
# The name in a store

* `Sentence.name_of_mem_ways` : on every way to read a store, its name is the last word of the
  sentence.
* `Sentence.part_name_of_match` : so the name in a store is the last word, whatever stands before it.
* `Sentence.nameIn_of_unquoted` : the name in that word is the same as it stands and between quotes.
-/

namespace PlainSteps.Sentence

open Pattern Form Text

variable {a : Place} {parts : Parts Part} {r : Place × Parts Part}

/-! ## The parts of the form -/

def storeVerbs : List String := ["store", "save", "remember", "capture"]

/-- The words that lead over from the source to the name. -/
def joints : List String := ["as", "into", "in", "to"]

/-- What stands before the source. -/
def storeLead : List Form :=
  [blanks, oneOf storeVerbs, gap, leading (word "the"), leading (oneOf ["text", "value", "content"]),
    leading (oneOf ["of", "from", "in"])]

/-- What stands between the source and the name. -/
def naming : List Form :=
  [gap, oneOf joints, gap, optional (chain [leading (word "the"), word "variable", gap])]

def nameEnding : List Form := [part .name unbroken, blanks, textEnd]

theorem store_eq :
    Form.store = chain (storeLead ++ part .source shortText :: (naming ++ nameEnding)) := rfl

/-! ## The last word -/

theorem blank_of_mem_gap (h : r ∈ gap.ways a parts) : ∃ c ∈ r.1.before.head?, isBlank c = true := by
  obtain ⟨t, hne, -, hbefore, hblank, -⟩ := mem_ways_run.mp h
  obtain ⟨u, c, rfl⟩ := List.eq_nil_or_concat t |>.resolve_left hne
  refine ⟨c, ?_, hblank c (by simp)⟩
  simp [hbefore]

theorem blank_of_mem_naming (h : r ∈ (chain naming).ways a parts) :
    ∃ c ∈ r.1.before.head?, isBlank c = true := by
  obtain ⟨m₁, -, h⟩ := mem_ways_chain_cons.mp h
  obtain ⟨m₂, -, h⟩ := mem_ways_chain_cons.mp h
  obtain ⟨m₃, hgap, h⟩ := mem_ways_chain_cons.mp h
  rcases mem_ways_either.mp h with h | h
  · obtain ⟨m₄, -, h⟩ := mem_ways_chain_cons.mp h
    obtain ⟨m₅, -, h⟩ := mem_ways_chain_cons.mp h
    exact blank_of_mem_gap h
  · rw [mem_ways_nothing.mp h]
    exact blank_of_mem_gap hgap

theorem getLast?_cons_concat (v w : List Char) (c e : Char) :
    (v ++ c :: w.concat e).getLast? = some e := by
  rw [List.concat_eq_append, ← List.cons_append, ← List.append_assoc, List.getLast?_concat]

theorem name_of_mem_ways {v name : List Char} {b : Char} (hb : isBlank b = true) (hne : name ≠ [])
    (hname : ∀ c ∈ name, isBlank c = false) (htext : a.text = v ++ b :: name)
    (h : r ∈ (chain (naming ++ nameEnding)).ways a parts) :
    ∃ m ∈ (chain naming).ways a parts, m.1.after = name ∧
      r = (⟨name.reverse ++ m.1.before, []⟩,
        (.name, m.1, ⟨name.reverse ++ m.1.before, []⟩) :: m.2) := by
  obtain ⟨m, hm, h⟩ := mem_ways_chain_append.mp h
  obtain ⟨c, hc, hblank⟩ := blank_of_mem_naming hm
  rw [← text_of_mem_ways hm, Place.text] at htext
  have hlast : ∀ c ∈ m.1.after.getLast?, isBlank c = false := by
    intro d hd
    have hend := congrArg List.getLast? htext
    obtain ⟨init, e, rfl⟩ := (List.eq_nil_or_concat name).resolve_left hne
    rw [List.getLast?_append, Option.mem_def.mp hd, Option.some_or, getLast?_cons_concat] at hend
    obtain rfl := Option.some.inj hend
    exact hname d (by simp)
  obtain ⟨hr, hnil⟩ := end_of_mem_ways hlast h
  obtain ⟨n, hn, rfl⟩ := mem_ways_part.mp hr
  obtain ⟨u, -, hread, hbefore, hunbroken, hparts⟩ := mem_ways_run.mp hn
  simp only at hnil
  rw [hnil, List.append_nil] at hread
  have hnoBlank : b ∉ m.1.after := by
    intro hmem
    have h := hunbroken b (hread ▸ hmem)
    rw [hb] at h
    cases h
  have hwhole : m.1.after = name := by
    rcases List.append_eq_append_iff.mp htext with ⟨w, -, hw⟩ | ⟨w, hw, hrest⟩
    · exact absurd (by rw [hw]; simp) hnoBlank
    · rcases w with _ | ⟨d, w⟩
      · exact absurd (by rw [← List.nil_append m.1.after, ← hrest]; simp) hnoBlank
      · obtain ⟨rfl, hsplit⟩ := List.cons.inj hrest
        rcases List.eq_nil_or_concat w with rfl | ⟨w, e, rfl⟩
        · exact hsplit.symm
        · -- the character before the name belongs to a gap and cannot be one of the name
          have hhead : m.1.before.head? = some e := by
            rw [← List.getLast?_reverse, hw, getLast?_cons_concat]
          obtain rfl : e = c := Option.some.inj (hhead.symm.trans hc)
          rw [hname e (by rw [hsplit]; simp)] at hblank
          cases hblank
  refine ⟨m, hm, hwhole, ?_⟩
  obtain ⟨⟨n₁, n₂⟩, ns⟩ := n
  simp_all

theorem part_name_of_match {v name : List Char} {b : Char} (hb : isBlank b = true) (hne : name ≠ [])
    (hname : ∀ c ∈ name, isBlank c = false) {f : Found Part}
    (h : Form.store.match? (v ++ b :: name) = some f) : f.part .name = name := by
  rw [match?, store_eq] at h
  obtain ⟨r, hr, rfl⟩ := exists_way_of_matchAt? h
  obtain ⟨m₁, hm₁, hway⟩ := mem_ways_chain_append.mp hr
  obtain ⟨m₂, hm₂, hway⟩ := mem_ways_chain_cons.mp hway
  have htext : m₂.1.text = v ++ b :: name :=
    (text_of_mem_ways hm₂).trans (text_of_mem_ways hm₁)
  obtain ⟨m, -, hafter, rfl⟩ := name_of_mem_ways hb hne hname htext hway
  have hread := Place.upTo_append m.1.before name []
  rw [List.append_nil, ← hafter] at hread
  rw [Found.part_self, ← hafter]
  exact hread

/-! ## Spellings of a name -/

section

variable {n : List Char}

theorem not_blank_of_isName (h : isName n = true) : ∀ c ∈ n, isBlank c = false :=
  fun c hc => (continuesName_spec (continuesName_of_isName h c hc)).1

theorem trimmed_name (h : isName n = true) : trimmed n = n :=
  trimmed_eq_self (fun c hc => not_blank_of_isName h c (List.mem_of_head? hc))
    fun c hc => not_blank_of_isName h c (List.mem_of_getLast? hc)

theorem unquoted_name (h : isName n = true) : unquoted n = n := by
  have hmarks : betweenMarks? n = none := betweenMarks?_eq_none fun c hc =>
    (continuesName_spec (continuesName_of_isName h c (List.mem_of_head? hc))).2.1
  rw [unquoted, trimmed_name h, hmarks]

theorem nameIn_of_unquoted {s : List Char} (h : isName n = true) (hs : unquoted s = n) :
    nameIn s = n := by
  have hbrace : ∀ c ∈ n, isBrace c = false :=
    fun c hc => (continuesName_spec (continuesName_of_isName h c hc)).2.2
  rw [nameIn, hs, dropWhile_of_head fun c hc => hbrace c (List.mem_of_head? hc),
    dropEndWhile_of_last fun c hc => hbrace c (List.mem_of_getLast? hc)]

theorem nameIn_name (h : isName n = true) : nameIn n = n :=
  nameIn_of_unquoted h (unquoted_name h)

theorem nameIn_inQuotes (h : isName n = true) : nameIn (inQuotes n) = n :=
  nameIn_of_unquoted h ((unquoted_inQuotes n).trans (trimmed_name h))

theorem not_blank_of_inQuotes (h : isName n = true) : ∀ c ∈ inQuotes n, isBlank c = false := by
  intro c hc
  rcases List.mem_cons.mp hc with rfl | hc
  · rfl
  · rcases List.mem_append.mp hc with hc | hc
    · exact not_blank_of_isName h c hc
    · obtain rfl := List.mem_singleton.mp hc
      rfl

end

end PlainSteps.Sentence
