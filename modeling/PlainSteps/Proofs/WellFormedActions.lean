import PlainSteps.Proofs.Classification
import PlainSteps.Proofs.Quotation
import PlainSteps.Proofs.StoreSentence
import PlainSteps.Proofs.Substitution

/-!
# Actions are well formed

`Sentence.classify_wellFormed`: whatever the sentence, the limit on nesting and the usual pause, the
parts of its action keep what the rest of the program relies on (`Action.WellFormed`).

A target is read back from its own hint (`Target.Stable`). That holds of every target that is read from
a text at all (`Target.stable_ofChars`), and an operand is always read from a piece of the sentence,
whichever of its ways it takes (`operand_eq_ofChars`); the piece is more than blanks when the operand
is, since a quotation begins with a mark and a locator goes on after the name of its engine. The levels
of an action are those of `classifyWith_cases`.
-/

namespace PlainSteps

open Text

/-! ## What the parts of an action keep -/

/-- A target that is read back from its own hint. -/
structure Target.Stable (target : Target) : Prop where
  parse_hint : Target.parse target.hint = target
  locator : ∀ {locator}, target = .explicit locator →
    trim locator = locator ∧ ∃ engine ∈ locatorEngines, engine.toList <+: locator.toList
  words : ∀ {hint}, target = .implied hint → (Target.parse hint).isExplicit = false

/-- A name under which a text can be stored and found again. -/
def Variables.Referenceable (name : String) : Prop :=
  ∀ (vars : Variables) (value : String),
    (vars.set name value).substitute ("\x7b" ++ name ++ "\x7d") = trim value

/-- How an address may begin, up to the case of letters. -/
def addressStarts : List String := Sentence.schemes ++ ["/"]

/-- The parts of an action, at every level of a conditional step. -/
def Action.WellFormed : Action → Prop
  | navigate url => ∃ start ∈ addressStarts, start.toList <+: url.toList.map lower
  | click target | fill _ target | waitFor target _ => target.Stable
  | store source name => source.Stable ∧ Variables.Referenceable name
  | conditional target _ consequence => target.Stable ∧ consequence.WellFormed
  | verify target => target.Stable ∧ target.hint ≠ ""
  | waitForLoad | waitDuration _ | unknown _ => True

/-! ## Targets -/

@[simp] theorem trimmed_unquoted (s : List Char) : trimmed (unquoted s) = unquoted s := by
  rw [unquoted]
  split
  · exact trimmed_trimmed _
  · exact trimmed_trimmed s

@[simp] theorem unquoted_trimmed (s : List Char) : unquoted (trimmed s) = unquoted s := by
  rw [unquoted, trimmed_trimmed, unquoted]

theorem locatorEngines_spec : ∀ engine ∈ locatorEngines,
    engine.toList ≠ [] ∧ (∀ c ∈ engine.toList, isBlank c = false ∧ isQuoteMark c = false) ∧
      engine.toList.map lower = engine.toList := by
  have hall : (locatorEngines.all fun engine => !engine.toList.isEmpty &&
      engine.toList.all (fun c => !isBlank c && !isQuoteMark c) &&
      engine.toList.map lower == engine.toList) = true := by
    decide
  simpa [and_assoc] using hall

theorem locatorEngine?_eq_some {s : List Char} {engine : String}
    (h : locatorEngine? s = some engine) :
    engine ∈ locatorEngines ∧ engine.toList <+: s.map lower := by
  refine ⟨List.mem_of_find?_eq_some h, ?_⟩
  have hstarts := List.find?_some h
  rwa [startsWith, List.isPrefixOf_iff_prefix] at hstarts

namespace Target

/-- A locator with the name of its engine in lower case. -/
def locatorOf (engine : String) (inner : List Char) : List Char :=
  engine.toList ++ inner.drop engine.length

section

variable {engine : String} {inner : List Char}

theorem unquoted_locatorOf (hengine : engine ∈ locatorEngines) (hinner : trimmed inner = inner) :
    trimmed (locatorOf engine inner) = locatorOf engine inner ∧
      unquoted (locatorOf engine inner) = locatorOf engine inner := by
  obtain ⟨hne, hspec, -⟩ := locatorEngines_spec engine hengine
  have hfirst : ∀ c ∈ (locatorOf engine inner).head?, isBlank c = false ∧ isQuoteMark c = false := by
    intro c hc
    rw [locatorOf, List.head?_append, List.head?_eq_some_head hne, Option.some_or] at hc
    rw [← List.head?_eq_some_head hne] at hc
    exact hspec c (List.mem_of_head? hc)
  have hlast : ∀ c ∈ (locatorOf engine inner).getLast?, isBlank c = false := by
    intro c hc
    rw [locatorOf, List.getLast?_append, List.getLast?_drop] at hc
    split at hc
    · exact (hspec c (List.mem_of_getLast? hc)).1
    · cases hlast : inner.getLast? with
      | none =>
        rw [hlast] at hc
        exact (hspec c (List.mem_of_getLast? hc)).1
      | some d =>
        rw [hlast] at hc
        obtain rfl : d = c := Option.some.inj hc
        exact not_blank_of_last_trimmed (s := inner) (by rw [hinner]; exact hlast)
  have htrimmed : trimmed (locatorOf engine inner) = locatorOf engine inner :=
    trimmed_eq_self (fun c hc => (hfirst c hc).1) hlast
  have hmarks : betweenMarks? (locatorOf engine inner) = none :=
    betweenMarks?_eq_none fun c hc => (hfirst c hc).2
  exact ⟨htrimmed, by rw [unquoted, htrimmed, hmarks]⟩

theorem lower_locatorOf (hengine : engine ∈ locatorEngines)
    (h : engine.toList <+: inner.map lower) :
    (locatorOf engine inner).map lower = inner.map lower := by
  obtain ⟨rest, hrest⟩ := h
  have hdrop : (inner.map lower).drop engine.length = rest := by
    rw [← hrest, ← String.length_toList, List.drop_left]
  rw [locatorOf, List.map_append, (locatorEngines_spec engine hengine).2.2, List.map_drop, hdrop,
    hrest]

theorem locatorOf_locatorOf (engine : String) (inner : List Char) :
    locatorOf engine (locatorOf engine inner) = locatorOf engine inner := by
  have hdrop : (locatorOf engine inner).drop engine.length = inner.drop engine.length := by
    rw [locatorOf, ← String.length_toList, List.drop_left]
  rw [locatorOf, hdrop, locatorOf]

end

section

variable {raw : List Char}

theorem ofChars_of_engine {engine : String} (h : locatorEngine? (unquoted raw) = some engine) :
    ofChars raw = .explicit (String.ofList (locatorOf engine (unquoted raw))) := by
  rw [ofChars, h, locatorOf, String.ofList_append, String.ofList_toList]

theorem ofChars_of_none (h : locatorEngine? (unquoted raw) = none) :
    ofChars raw = .implied (String.ofList (trimmed raw)) := by
  rw [ofChars, h]

theorem parse_ofList (s : List Char) : parse (String.ofList s) = ofChars s := by
  rw [parse, String.toList_ofList]

theorem stable_ofChars (raw : List Char) : (ofChars raw).Stable := by
  cases hengine : locatorEngine? (unquoted raw) with
  | none =>
    have hparse : parse (String.ofList (trimmed raw)) = .implied (String.ofList (trimmed raw)) := by
      rw [parse_ofList, ofChars_of_none (by rw [unquoted_trimmed, hengine]), trimmed_trimmed]
    rw [ofChars_of_none hengine]
    refine ⟨hparse, fun h => (by cases h), fun h => ?_⟩
    cases h
    rw [hparse]
    rfl
  | some engine =>
    obtain ⟨hmem, hstarts⟩ := locatorEngine?_eq_some hengine
    obtain ⟨htrimmed, hunquoted⟩ := unquoted_locatorOf hmem (trimmed_unquoted raw)
    have hsame : locatorEngine? (unquoted (locatorOf engine (unquoted raw))) = some engine := by
      rw [← hengine, hunquoted, locatorEngine?, lower_locatorOf hmem hstarts, locatorEngine?]
    rw [ofChars_of_engine hengine]
    refine ⟨?_, fun h => ?_, fun h => (by cases h)⟩
    · rw [hint, parse_ofList, ofChars_of_engine hsame, hunquoted, locatorOf_locatorOf]
    · cases h
      rw [trim, String.toList_ofList, htrimmed]
      exact ⟨rfl, engine, hmem, List.prefix_append _ _⟩

theorem hint_ofChars_ne_empty (h : trimmed raw ≠ []) : (ofChars raw).hint ≠ "" := by
  cases hengine : locatorEngine? (unquoted raw) with
  | none =>
    rw [ofChars_of_none hengine, hint, ne_eq, String.ofList_eq_empty_iff]
    exact h
  | some engine =>
    have hne := (locatorEngines_spec engine (locatorEngine?_eq_some hengine).1).1
    rw [ofChars_of_engine hengine, hint, ne_eq, String.ofList_eq_empty_iff]
    intro hempty
    exact hne (List.append_eq_nil_iff.mp hempty).1

end

end Target

namespace Sentence

open Pattern Form

/-! ## Operands -/

section

variable {a : Place} {parts : Parts Part} {r : Place × Parts Part}

theorem upTo_of_mem_one {accepts : Char → Bool} (h : r ∈ (one accepts : Form).ways a parts) :
    ∃ c, accepts c = true ∧ a.upTo r.1 = [c] := by
  obtain ⟨c, s, hafter, hc, rfl⟩ := mem_ways_one.mp h
  have hread := (upTo_of_mem_ways h).1
  rw [hafter, ← List.singleton_append] at hread
  exact ⟨c, hc, (List.append_cancel_right hread).symm⟩

theorem trimmed_quotation (h : r ∈ Form.quotation.ways a parts) : trimmed (a.upTo r.1) ≠ [] := by
  have hmarks : ∀ p ∈ Form.quotations, ∃ opening closing, p = between opening closing ∧
      isBlank opening = false := by
    intro p hp
    simp only [Form.quotations, List.mem_cons, List.not_mem_nil, or_false] at hp
    rcases hp with rfl | rfl | rfl | rfl <;> exact ⟨_, _, rfl, rfl⟩
  obtain ⟨p, hp, h⟩ := (mem_ways_anyOf (by simp [Form.quotations])).mp h
  obtain ⟨opening, closing, rfl, hopening⟩ := hmarks p hp
  obtain ⟨m, hm, hr⟩ := mem_ways_chain_cons.mp h
  obtain ⟨c, hc, hread⟩ := upTo_of_mem_one hm
  rw [upTo_trans hm hr, hread]
  have hmem : c ∈ [c] ++ m.1.upTo r.1 := by simp
  have hblank : isBlank c = false := by
    rw [beq_iff_eq.mp hc]
    exact hopening
  exact trimmed_ne_nil hmem hblank

theorem trimmed_of_mem_quotations {s q : List Char} (h : q ∈ quotations s) : trimmed q ≠ [] := by
  obtain ⟨f, hf, rfl⟩ := List.mem_map.mp h
  obtain ⟨b, hb⟩ := matchAt?_of_mem_findAllFrom hf
  obtain ⟨r, hr, rfl⟩ := exists_way_of_matchAt? hb
  exact trimmed_quotation hr

theorem trimmed_locator {s : List Char} {f : Found Part}
    (h : Form.trailingLocator.find? s = some f) : trimmed (f.part .locator) ≠ [] := by
  obtain ⟨b, hb⟩ := matchAt?_of_findFrom h
  obtain ⟨r, hr, rfl⟩ := exists_way_of_matchAt? hb
  obtain ⟨m₁, -, hr⟩ := mem_ways_chain_cons.mp hr
  obtain ⟨m₂, hpart, hend⟩ := mem_ways_chain_cons.mp hr
  obtain ⟨m₃, hlocator, rfl⟩ := mem_ways_part.mp hpart
  obtain ⟨-, rfl⟩ := mem_ways_textEnd.mp hend
  obtain ⟨m₄, hengine, hrest⟩ := mem_ways_chain_cons.mp hlocator
  have hafterEngine := upTo_trans hengine hrest
  obtain ⟨m₅, hequals, hrest⟩ := mem_ways_chain_cons.mp hrest
  have hafterEquals := upTo_trans hequals hrest
  obtain ⟨m₆, hone, hrest⟩ := mem_ways_chain_cons.mp hrest
  obtain ⟨c, hc, hread⟩ := upTo_of_mem_one hone
  have hafterOne := upTo_trans hone hrest
  rw [Found.part_self, hafterEngine, hafterEquals, hafterOne, hread]
  have hmem : c ∈ m₁.1.upTo m₄.1 ++ (m₄.1.upTo m₅.1 ++ ([c] ++ m₆.1.upTo m₃.1)) := by simp
  exact trimmed_ne_nil hmem (by simpa using hc)

end

/-- An operand is read from a piece of its text, and from more than blanks when there is more. -/
theorem operand_eq_ofChars (raw : List Char) : ∃ piece, operand raw = Target.ofChars piece ∧
    (trimmed raw ≠ [] → trimmed piece ≠ []) := by
  have hself : trimmed raw ≠ [] → trimmed (trimmed raw) ≠ [] := by
    rw [trimmed_trimmed]
    exact id
  simp only [operand]
  split
  · exact ⟨_, rfl, hself⟩
  · rename_i hwhole
    split
    · rename_i locator hlocator
      obtain ⟨q, hq, rfl⟩ := List.mem_map.mp (List.mem_of_find?_eq_some hlocator)
      exact ⟨q, rfl, fun _ => trimmed_of_mem_quotations hq⟩
    · split
      · rename_i f hf
        exact ⟨_, rfl, fun _ => trimmed_locator hf⟩
      · split
        · rename_i target htarget
          obtain ⟨q, hq, rfl⟩ := List.mem_map.mp (List.mem_of_head? htarget)
          exact ⟨q, rfl, fun _ => trimmed_of_mem_quotations hq⟩
        · refine ⟨trimmed raw, ?_, hself⟩
          cases hengine : locatorEngine? (unquoted (trimmed raw)) with
          | none => rw [Target.ofChars_of_none hengine, trimmed_trimmed]
          | some engine =>
            rw [Target.ofChars_of_engine hengine] at hwhole
            exact absurd (Bool.or_eq_true_iff.mpr (.inl rfl)) hwhole

theorem stable_operand (raw : List Char) : (operand raw).Stable := by
  obtain ⟨piece, hpiece, -⟩ := operand_eq_ofChars raw
  rw [hpiece]
  exact Target.stable_ofChars piece

theorem hint_operand {raw : List Char} (h : trimmed raw ≠ []) : (operand raw).hint ≠ "" := by
  obtain ⟨piece, hpiece, hne⟩ := operand_eq_ofChars raw
  rw [hpiece]
  exact Target.hint_ofChars_ne_empty (hne h)

/-! ## Names and addresses -/

theorem referenceable_of_isName {name : List Char} (h : isName name = true) :
    Variables.Referenceable (String.ofList name) := by
  intro vars value
  have hchars : ("\x7b" ++ String.ofList name ++ "\x7d").toList = '\x7b' :: (name ++ ['\x7d']) := by
    simp
  have hname : Variables.placeholder? (name ++ ['\x7d']) = some (name, []) :=
    Variables.placeholder?_name h (continuesName_of_isName h) []
  rw [Variables.substitute, hchars, Variables.substituteChars_placeholder _ hname,
    Variables.substituteChars_nil, List.append_nil, Variables.replacement, Variables.get?_set_self,
    String.ofList_toList]

theorem address_start {candidate url : List Char} (h : address? candidate = some url) :
    ∃ start ∈ addressStarts, start.toList <+: url.map lower := by
  have hstarts : ∀ {s : List Char}, isAddress s = true →
      ∃ start ∈ addressStarts, start.toList <+: s.map lower := by
    intro s hs
    rcases Bool.or_eq_true_iff.mp hs with hs | hs
    · obtain ⟨start, hstart, hs⟩ := List.any_eq_true.mp hs
      rw [startsWith, List.isPrefixOf_iff_prefix] at hs
      exact ⟨start, List.mem_append_left _ hstart, hs⟩
    · obtain ⟨rest, rfl⟩ := List.head?_eq_some_iff.mp (beq_iff_eq.mp hs)
      exact ⟨"/", by decide, rest.map lower, rfl⟩
  rw [address?] at h
  split at h
  · rename_i hs
    cases h
    exact hstarts hs
  · rw [Option.ite_none_right_eq_some] at h
    obtain ⟨-, h⟩ := h
    cases h
    exact ⟨"https://", by decide, candidate.map lower, by rw [List.map_append]; rfl⟩

/-! ## Actions -/

theorem Simple.wellFormed {action : Action} (h : Simple action) : action.WellFormed := by
  cases h with
  | store source hname => exact ⟨stable_operand source, referenceable_of_isName hname⟩
  | pageLoad => trivial
  | waitFor target state => exact stable_operand target
  | click target => exact stable_operand target
  | fill value target => exact stable_operand target
  | navigate haddress =>
    obtain ⟨start, hstart, hurl⟩ := address_start haddress
    exact ⟨start, hstart, by rwa [String.toList_ofList]⟩
  | verify hne => exact ⟨stable_operand _, hint_operand hne⟩
  | pause seconds => trivial
  | unknown text => trivial

theorem wellFormed_classifyWithin (usual : Number.Binary64) (depth : Nat) (text : List Char) :
    (classifyWithin usual depth text).WellFormed := by
  induction depth generalizing text with
  | zero =>
    rcases classifyWith_cases usual text with ⟨action, hsimple, h⟩ | ⟨_, _, _, _, -, hnone, -⟩
    · rw [classifyWithin, h]
      exact hsimple.wellFormed
    · rw [classifyWithin, hnone]
      trivial
  | succ depth ih =>
    rcases classifyWith_cases usual text with ⟨action, hsimple, h⟩ | ⟨target, _, sentence, _, -, -, h⟩
    · rw [classifyWithin, h]
      exact hsimple.wellFormed
    · rw [classifyWithin, h]
      exact ⟨stable_operand target, ih sentence⟩

/-- Every action that a sentence asks for is well formed, at every level. -/
theorem classify_wellFormed (rules : Rules) (text : String) : (classify rules text).WellFormed :=
  wellFormed_classifyWithin rules.usualPause rules.maxDepth text.toList

end Sentence

end PlainSteps
