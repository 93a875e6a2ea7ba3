import PlainSteps.Pattern

/-!
# The ways to read a pattern

* `Pattern.Found.part_self` : the part that was read last is the one that its label finds.
* `Pattern.matchAt?_eq` : a match is the first of the ways to read its pattern.
* `Pattern.mem_ways_both` and its companions : the ways to read each pattern.
* `Pattern.first_of_findFrom` : the match that is found begins at the first place at which one does.
* `Pattern.matchAt?_of_mem_findAllFrom` : a match found further on is a match at some place.
* `Pattern.read_of_mem_ways` : reading moves over the text, and only over characters that some part of
  the pattern reads; `Pattern.upTo_of_mem_ways` says what was read, and `Pattern.upTo_trans` puts it
  together.
* `Pattern.Found.Within` : all that is found in a text lies in it.
* `Pattern.spells_of_mem_ways` : a pattern that does not look around is read in the same way wherever
  its text stands.
* `Pattern.tryMany_toEnd` : where only the end of the text will do, characters are read up to there or
  not at all.
* `Pattern.tryFew_append`, `Pattern.tryFew_eq_some`, `Pattern.exists_tryFew` : as few characters are
  read as what follows allows.
-/

namespace PlainSteps

/-- The whole text that a place lies in. -/
def Place.text (a : Place) : List Char := a.before.reverse ++ a.after

@[simp] theorem Place.text_start (s : List Char) : (Place.start s).text = s := rfl

theorem Place.upTo_append (before t s : List Char) :
    Place.upTo ⟨before, t ++ s⟩ ⟨t.reverse ++ before, s⟩ = t := by
  have hlength : (t.reverse ++ before).length - before.length = t.reverse.length := by simp
  rw [upTo]
  simp only [hlength]
  rw [List.take_left, List.reverse_reverse]

theorem Place.upTo_toEnd (before s : List Char) : upTo ⟨before, s⟩ ⟨s.reverse ++ before, []⟩ = s := by
  have h := upTo_append before s []
  rwa [List.append_nil] at h

theorem Place.upTo_start (t s : List Char) : upTo (start (t ++ s)) ⟨t.reverse, s⟩ = t := by
  have h := upTo_append [] t s
  rwa [List.append_nil] at h

namespace Pattern

variable {κ α : Type}

/-! ## Parts of a match -/

section

variable [BEq κ] {start stop : Place} {parts : Parts κ} {label other : κ} {a b : Place}

theorem Found.part_self [ReflBEq κ] :
    (⟨start, stop, (label, a, b) :: parts⟩ : Found κ).part label = a.upTo b := by
  simp only [part, part?, List.find?_cons_of_pos, beq_self_eq_true, Option.map_some, Option.getD_some]

theorem Found.part_of_ne (h : (other == label) = false) :
    (⟨start, stop, (other, a, b) :: parts⟩ : Found κ).part label =
      (⟨start, stop, parts⟩ : Found κ).part label := by
  simp only [part, part?, List.find?_cons, h]

end

/-! ## The first way -/

theorem first_some (p : Pattern κ) (f : Place → Parts κ → α) (a : Place) (parts : Parts κ) :
    p.first (fun b parts => some (f b parts)) a parts =
      (p.ways a parts).head?.map fun r => f r.1 r.2 := by
  rw [first_eq_findSome]
  cases p.ways a parts <;> rfl

theorem mem_of_first_some {p : Pattern κ} {f : Place → Parts κ → α} {a : Place} {parts : Parts κ} {x : α}
    (h : p.first (fun b parts => some (f b parts)) a parts = some x) :
    ∃ r ∈ p.ways a parts, f r.1 r.2 = x := by
  rw [first_some] at h
  obtain ⟨r, hr, hx⟩ := Option.map_eq_some_iff.mp h
  exact ⟨r, List.mem_of_head? hr, hx⟩

theorem exists_first_of_mem {p : Pattern κ} {a : Place} {parts : Parts κ} {r : Place × Parts κ}
    (hr : r ∈ p.ways a parts) {next : Place → Parts κ → Option α} {x : α} (hx : next r.1 r.2 = some x) :
    ∃ y, p.first next a parts = some y := by
  rw [first_eq_findSome]
  refine Option.isSome_iff_exists.mp (List.findSome?_isSome_iff.mpr ⟨r, hr, ?_⟩)
  rw [hx, Option.isSome_some]

theorem exists_first_some {p : Pattern κ} {a : Place} {parts : Parts κ} (h : ∃ r, r ∈ p.ways a parts)
    (f : Place → Parts κ → α) : ∃ x, p.first (fun b parts => some (f b parts)) a parts = some x := by
  obtain ⟨r, hr⟩ := h
  exact exists_first_of_mem hr rfl

theorem matchAt?_eq (p : Pattern κ) (a : Place) :
    p.matchAt? a = (p.ways a []).head?.map fun r => ⟨a, r.1, r.2⟩ :=
  first_some p _ a []

theorem exists_way_of_matchAt? {p : Pattern κ} {a : Place} {f : Found κ} (h : p.matchAt? a = some f) :
    ∃ r ∈ p.ways a [], f = ⟨a, r.1, r.2⟩ := by
  obtain ⟨r, hr, rfl⟩ := mem_of_first_some h
  exact ⟨r, hr, rfl⟩

theorem matchAt?_eq_none_iff {p : Pattern κ} {a : Place} :
    p.matchAt? a = none ↔ ∀ r, r ∉ p.ways a [] := by
  rw [matchAt?_eq, Option.map_eq_none_iff, List.head?_eq_none_iff, List.eq_nil_iff_forall_not_mem]

theorem matchAt?_of_findFrom_eq_none {p : Pattern κ} {before s : List Char}
    (h : p.findFrom before s = none) {u t : List Char} (hs : s = u ++ t) :
    p.matchAt? ⟨u.reverse ++ before, t⟩ = none := by
  induction s generalizing before u with
  | nil =>
    obtain ⟨rfl, rfl⟩ := List.append_eq_nil_iff.mp hs.symm
    exact h
  | cons c s ih =>
    rw [findFrom] at h
    split at h
    · cases h
    · rename_i hnone
      cases u with
      | nil => rwa [hs] at hnone
      | cons d u =>
        obtain ⟨rfl, hrest⟩ := List.cons.inj hs
        simpa using ih h hrest

theorem first_of_findFrom {p : Pattern κ} {before s : List Char} {f : Found κ}
    (h : p.findFrom before s = some f) :
    ∃ u t, s = u ++ t ∧ p.matchAt? ⟨u.reverse ++ before, t⟩ = some f ∧
      ∀ u₁ u₂, u = u₁ ++ u₂ → u₂ ≠ [] → p.matchAt? ⟨u₁.reverse ++ before, u₂ ++ t⟩ = none := by
  induction s generalizing before with
  | nil =>
    refine ⟨[], [], rfl, h, fun u₁ u₂ hu hne => ?_⟩
    exact absurd (List.append_eq_nil_iff.mp hu.symm).2 hne
  | cons c s ih =>
    rw [findFrom] at h
    split at h
    · rename_i g hg
      refine ⟨[], c :: s, rfl, hg.trans h, fun u₁ u₂ hu hne => ?_⟩
      exact absurd (List.append_eq_nil_iff.mp hu.symm).2 hne
    · rename_i hnone
      obtain ⟨u, t, rfl, hf, hfirst⟩ := ih h
      refine ⟨c :: u, t, rfl, by simpa using hf, fun u₁ u₂ hu hne => ?_⟩
      cases u₁ with
      | nil =>
        rw [List.nil_append] at hu
        rw [← hu]
        exact hnone
      | cons d u₁ =>
        obtain ⟨rfl, hrest⟩ := List.cons.inj hu
        simpa using hfirst u₁ u₂ hrest hne

theorem matchAt?_of_findFrom {p : Pattern κ} {before s : List Char} {f : Found κ}
    (h : p.findFrom before s = some f) : ∃ a, p.matchAt? a = some f := by
  obtain ⟨u, t, -, hf, -⟩ := first_of_findFrom h
  exact ⟨_, hf⟩

theorem matchAt?_of_mem_findAllFrom {p : Pattern κ} {n : Nat} {a : Place} {f : Found κ}
    (h : f ∈ p.findAllFrom n a) : ∃ b, p.matchAt? b = some f := by
  induction n generalizing a f with
  | zero => cases h
  | succ n ih =>
    rw [findAllFrom] at h
    split at h
    · cases h
    · rename_i g hg
      have hfound : ∀ l, (∀ f ∈ l, ∃ b, p.matchAt? b = some f) → f ∈ g :: l →
          ∃ b, p.matchAt? b = some f := by
        intro l hl hf
        rcases List.mem_cons.mp hf with rfl | hf
        · exact matchAt?_of_findFrom hg
        · exact hl f hf
      split at h
      · exact hfound _ (fun _ hf => ih hf) h
      · split at h
        · exact hfound [] (by simp) h
        · exact hfound _ (fun _ hf => ih hf) h

theorem match?_eq_none {p : Pattern κ} {s : List Char}
    (h : ∀ r, r ∉ p.ways (Place.start s) []) : p.match? s = none :=
  matchAt?_eq_none_iff.mpr h

theorem matches?_iff {p : Pattern κ} {s : List Char} :
    p.matches? s = true ↔ ∃ r, r ∈ p.ways (Place.start s) [] := by
  rw [matches?, match?, matchAt?_eq, Option.isSome_map, List.isSome_head?]
  exact ⟨List.exists_mem_of_ne_nil _, fun ⟨_, hr⟩ => List.ne_nil_of_mem hr⟩

theorem first_of_ways {p : Pattern κ} {a b : Place} {parts parts' : Parts κ}
    (h : p.ways a parts = [(b, parts')]) (next : Place → Parts κ → Option α) :
    p.first next a parts = next b parts' := by
  rw [first_eq_findSome, h, List.findSome?_singleton]

theorem first_of_head {p : Pattern κ} {a b : Place} {parts parts' : Parts κ}
    (h : (p.ways a parts).head? = some (b, parts')) {next : Place → Parts κ → Option α} {x : α}
    (hx : next b parts' = some x) : p.first next a parts = some x := by
  obtain ⟨others, hways⟩ := List.head?_eq_some_iff.mp h
  rw [first_eq_findSome, hways, List.findSome?_cons, hx]

theorem first_either_of_some {p q : Pattern κ} {next : Place → Parts κ → Option α} {a : Place}
    {parts : Parts κ} {x : α} (h : p.first next a parts = some x) :
    (either p q).first next a parts = some x := by
  rw [first, h]

/-- When all ways to read a pattern lead to one place with the same parts, what follows it has no
choice. -/
theorem first_of_all {p : Pattern κ} {a b : Place} {parts parts' : Parts κ}
    (hne : ∃ r, r ∈ p.ways a parts) (h : ∀ r ∈ p.ways a parts, r = (b, parts'))
    (next : Place → Parts κ → Option α) : p.first next a parts = next b parts' := by
  rw [first_eq_findSome]
  obtain ⟨n, hn⟩ : ∃ n, p.ways a parts = List.replicate (n + 1) (b, parts') := by
    obtain ⟨r, hr⟩ := hne
    obtain ⟨n, hlength⟩ := Nat.exists_eq_add_one.mpr (List.length_pos_of_mem hr)
    exact ⟨n, List.eq_replicate_iff.mpr ⟨hlength, h⟩⟩
  rw [hn]
  clear hn hne h
  induction n with
  | zero => simp
  | succ n ih =>
    rw [List.replicate_succ, List.findSome?_cons, ih]
    cases next b parts' <;> rfl

/-! ## The ways to read each pattern -/

section mem_ways

variable {a : Place} {parts : Parts κ} {r : Place × Parts κ} {p q : Pattern κ}

theorem mem_reachable {accepts : Char → Bool} {before s : List Char} {b : Place} :
    b ∈ reachable accepts before s ↔
      ∃ t, s = t ++ b.after ∧ b.before = t.reverse ++ before ∧ ∀ c ∈ t, accepts c = true := by
  induction s generalizing before with
  | nil =>
    simp only [reachable, List.mem_singleton, List.nil_eq, List.append_eq_nil_iff]
    constructor
    · rintro rfl
      exact ⟨[], ⟨rfl, rfl⟩, rfl, by simp⟩
    · rintro ⟨t, ⟨rfl, hafter⟩, hbefore, -⟩
      obtain ⟨b₁, b₂⟩ := b
      simp_all
  | cons c s ih =>
    have hhere : b = ⟨before, c :: s⟩ ↔
        c :: s = [] ++ b.after ∧ b.before = ([] : List Char).reverse ++ before := by
      obtain ⟨b₁, b₂⟩ := b
      simp [and_comm, eq_comm]
    constructor
    · intro h
      by_cases hc : accepts c = true
      · simp only [reachable, hc, if_true, List.mem_append, List.mem_singleton] at h
        rcases h with h | h
        · obtain ⟨t, hs, hb, ht⟩ := ih.mp h
          refine ⟨c :: t, by rw [hs, List.cons_append], ?_, List.forall_mem_cons.mpr ⟨hc, ht⟩⟩
          rw [hb, List.reverse_cons, List.append_assoc, List.singleton_append]
        · obtain ⟨h₁, h₂⟩ := hhere.mp h
          exact ⟨[], h₁, h₂, by simp⟩
      · simp only [reachable, hc, Bool.false_eq_true, if_false, List.mem_singleton] at h
        obtain ⟨h₁, h₂⟩ := hhere.mp h
        exact ⟨[], h₁, h₂, by simp⟩
    · rintro ⟨t, hs, hb, ht⟩
      cases t with
      | nil =>
        have h := hhere.mpr ⟨hs, hb⟩
        unfold reachable
        split <;> simp [h]
      | cons d t =>
        obtain ⟨rfl, hrest⟩ := List.cons.inj hs
        obtain ⟨hc, ht⟩ := List.forall_mem_cons.mp ht
        rw [reachable, if_pos hc]
        refine List.mem_append_left _ (ih.mpr ⟨t, hrest, ?_, ht⟩)
        rw [hb, List.reverse_cons, List.append_assoc, List.singleton_append]

theorem head?_reachable {accepts : Char → Bool} {t s : List Char} (ht : ∀ c ∈ t, accepts c = true)
    (hs : ∀ c ∈ s.head?, accepts c = false) (before : List Char) :
    (reachable accepts before (t ++ s)).head? = some ⟨t.reverse ++ before, s⟩ := by
  induction t generalizing before with
  | nil =>
    cases s with
    | nil => rfl
    | cons c s =>
      have hc : ¬accepts c = true := by simp [hs c rfl]
      simp only [List.nil_append, reachable, if_neg hc]
      rfl
  | cons c t ih =>
    obtain ⟨hc, ht⟩ := List.forall_mem_cons.mp ht
    rw [List.cons_append, reachable, if_pos hc, List.head?_append, ih ht]
    simp

theorem head?_ways_many {accepts : Char → Bool} {t s : List Char} (ht : ∀ c ∈ t, accepts c = true)
    (hs : ∀ c ∈ s.head?, accepts c = false) (before : List Char) (parts : Parts κ) :
    ((many accepts).ways ⟨before, t ++ s⟩ parts).head? = some (⟨t.reverse ++ before, s⟩, parts) := by
  rw [ways, List.head?_map, head?_reachable ht hs]
  rfl

theorem head?_ways_run {accepts : Char → Bool} {t s : List Char} (hne : t ≠ [])
    (ht : ∀ c ∈ t, accepts c = true) (hs : ∀ c ∈ s.head?, accepts c = false) (before : List Char)
    (parts : Parts κ) :
    ((both (one accepts) (many accepts)).ways ⟨before, t ++ s⟩ parts).head? =
      some (⟨t.reverse ++ before, s⟩, parts) := by
  obtain ⟨c, t, rfl⟩ := List.exists_cons_of_ne_nil hne
  obtain ⟨hc, ht⟩ := List.forall_mem_cons.mp ht
  have hone : (one accepts).ways ⟨before, c :: t ++ s⟩ parts = [(⟨c :: before, t ++ s⟩, parts)] := by
    rw [List.cons_append, ways]
    exact if_pos hc
  rw [ways, hone, List.flatMap_singleton, head?_ways_many ht hs, List.reverse_cons, List.append_assoc,
    List.singleton_append]

theorem mem_ways_nothing : r ∈ (nothing : Pattern κ).ways a parts ↔ r = (a, parts) :=
  List.mem_singleton

theorem mem_ways_one {accepts : Char → Bool} : r ∈ (one accepts).ways a parts ↔
    ∃ c s, a.after = c :: s ∧ accepts c = true ∧ r = (⟨c :: a.before, s⟩, parts) := by
  obtain ⟨before, after⟩ := a
  cases after with
  | nil => simp [ways]
  | cons c s =>
    by_cases h : accepts c = true
    · simp only [ways, h, if_true, List.mem_singleton]
      constructor
      · intro hr
        exact ⟨c, s, rfl, h, hr⟩
      · rintro ⟨d, t, he, -, hr⟩
        cases he
        exact hr
    · simp only [ways, h, Bool.false_eq_true, if_false, List.not_mem_nil, false_iff]
      rintro ⟨d, t, he, hd, -⟩
      cases he
      exact h hd

theorem mem_ways_many {accepts : Char → Bool} : r ∈ (many accepts).ways a parts ↔
    ∃ t, a.after = t ++ r.1.after ∧ r.1.before = t.reverse ++ a.before ∧
      (∀ c ∈ t, accepts c = true) ∧ r.2 = parts := by
  obtain ⟨b, parts'⟩ := r
  simp only [ways, List.mem_map, Prod.mk.injEq, mem_reachable]
  constructor
  · rintro ⟨b', ⟨t, h₁, h₂, h₃⟩, rfl, rfl⟩
    exact ⟨t, h₁, h₂, h₃, rfl⟩
  · rintro ⟨t, h₁, h₂, h₃, rfl⟩
    exact ⟨b, ⟨t, h₁, h₂, h₃⟩, rfl, rfl⟩

theorem mem_ways_few {accepts : Char → Bool} :
    r ∈ (few accepts).ways a parts ↔ r ∈ (many accepts).ways a parts := by
  simp [ways]

theorem mem_ways_both :
    r ∈ (both p q).ways a parts ↔ ∃ m ∈ p.ways a parts, r ∈ q.ways m.1 m.2 :=
  List.mem_flatMap

theorem mem_ways_either :
    r ∈ (either p q).ways a parts ↔ r ∈ p.ways a parts ∨ r ∈ q.ways a parts :=
  List.mem_append

theorem mem_ways_run {accepts : Char → Bool} :
    r ∈ (both (one accepts) (many accepts)).ways a parts ↔
      ∃ t, t ≠ [] ∧ a.after = t ++ r.1.after ∧ r.1.before = t.reverse ++ a.before ∧
        (∀ c ∈ t, accepts c = true) ∧ r.2 = parts := by
  rw [mem_ways_both]
  constructor
  · rintro ⟨m, hm, h⟩
    obtain ⟨c, s, hafter, hc, rfl⟩ := mem_ways_one.mp hm
    obtain ⟨t, hs, hbefore, ht, hparts⟩ := mem_ways_many.mp h
    refine ⟨c :: t, List.cons_ne_nil c t, ?_, ?_, List.forall_mem_cons.mpr ⟨hc, ht⟩, hparts⟩
    · rw [hafter, List.cons_append]
      exact congrArg _ hs
    · rw [hbefore, List.reverse_cons, List.append_assoc, List.singleton_append]
  · rintro ⟨t, hne, hafter, hbefore, ht, hparts⟩
    obtain ⟨c, t, rfl⟩ := List.exists_cons_of_ne_nil hne
    obtain ⟨hc, ht⟩ := List.forall_mem_cons.mp ht
    refine ⟨_, mem_ways_one.mpr ⟨c, t ++ r.1.after, hafter, hc, rfl⟩, ?_⟩
    refine mem_ways_many.mpr ⟨t, rfl, ?_, ht, hparts⟩
    rw [hbefore, List.reverse_cons, List.append_assoc, List.singleton_append]

theorem mem_ways_run_few {accepts : Char → Bool} :
    r ∈ (both (one accepts) (few accepts)).ways a parts ↔
      r ∈ (both (one accepts) (many accepts)).ways a parts := by
  simp only [mem_ways_both, mem_ways_few]

theorem mem_ways_textStart :
    r ∈ (textStart : Pattern κ).ways a parts ↔ a.before = [] ∧ r = (a, parts) := by
  by_cases h : a.before = [] <;> simp [ways, h]

theorem mem_ways_edge {inside : Char → Bool} :
    r ∈ (edge inside : Pattern κ).ways a parts ↔ onEdge inside a = true ∧ r = (a, parts) := by
  by_cases h : onEdge inside a = true <;> simp [ways, h]

theorem mem_ways_textEnd :
    r ∈ (textEnd : Pattern κ).ways a parts ↔ a.after = [] ∧ r = (a, parts) := by
  by_cases h : a.after = [] <;> simp [ways, h]

theorem mem_ways_part {label : κ} : r ∈ (part label p).ways a parts ↔
    ∃ m ∈ p.ways a parts, r = (m.1, (label, a, m.1) :: m.2) := by
  simp only [ways, List.mem_map, eq_comm]

end mem_ways

/-! ## What a pattern reads -/

/-- Whether some part of the pattern reads the character. -/
def reads : Pattern κ → Char → Bool
  | one accepts, c | many accepts, c | few accepts, c => accepts c
  | both p q, c | either p q, c => p.reads c || q.reads c
  | part _ p, c => p.reads c
  | nothing, _ | textStart, _ | textEnd, _ | edge _, _ => false

/-- No part of the pattern has a label. -/
def unlabelled : Pattern κ → Bool
  | both p q | either p q => p.unlabelled && q.unlabelled
  | part _ _ => false
  | one _ | many _ | few _ | nothing | textStart | textEnd | edge _ => true

section

variable {a : Place} {parts : Parts κ} {r : Place × Parts κ} {p : Pattern κ}

theorem read_of_mem_many {accepts : Char → Bool} (h : r ∈ (many accepts).ways a parts) :
    ∃ t, a.after = t ++ r.1.after ∧ r.1.before = t.reverse ++ a.before ∧
      ∀ c ∈ t, accepts c = true := by
  obtain ⟨t, hafter, hbefore, hall, -⟩ := mem_ways_many.mp h
  exact ⟨t, hafter, hbefore, hall⟩

/-- Reading moves over the text, and only over characters that some part of the pattern reads. -/
theorem read_of_mem_ways (h : r ∈ p.ways a parts) :
    ∃ t, a.after = t ++ r.1.after ∧ r.1.before = t.reverse ++ a.before ∧
      ∀ c ∈ t, p.reads c = true := by
  induction p generalizing a parts r with
  | nothing =>
    rw [mem_ways_nothing.mp h]
    exact ⟨[], rfl, rfl, by simp⟩
  | one accepts =>
    obtain ⟨d, s, hafter, hd, rfl⟩ := mem_ways_one.mp h
    exact ⟨[d], hafter, rfl, by simpa [reads] using hd⟩
  | many accepts => exact read_of_mem_many h
  | few accepts => exact read_of_mem_many (mem_ways_few.mp h)
  | both p q ihp ihq =>
    obtain ⟨m, hm, hr⟩ := mem_ways_both.mp h
    obtain ⟨t, hafter, hbefore, ht⟩ := ihp hm
    obtain ⟨u, hafter', hbefore', hu⟩ := ihq hr
    refine ⟨t ++ u, ?_, ?_, ?_⟩
    · rw [hafter, hafter', List.append_assoc]
    · rw [hbefore', hbefore, List.reverse_append, List.append_assoc]
    · intro c hc
      rw [reads, Bool.or_eq_true]
      exact (List.mem_append.mp hc).imp (ht c) (hu c)
  | either p q ihp ihq =>
    simp only [reads, Bool.or_eq_true]
    rcases mem_ways_either.mp h with h | h
    · obtain ⟨t, hafter, hbefore, ht⟩ := ihp h
      exact ⟨t, hafter, hbefore, fun c hc => .inl (ht c hc)⟩
    · obtain ⟨t, hafter, hbefore, ht⟩ := ihq h
      exact ⟨t, hafter, hbefore, fun c hc => .inr (ht c hc)⟩
  | textStart =>
    rw [(mem_ways_textStart.mp h).2]
    exact ⟨[], rfl, rfl, by simp⟩
  | textEnd =>
    obtain ⟨-, rfl⟩ := mem_ways_textEnd.mp h
    exact ⟨[], rfl, rfl, by simp⟩
  | edge inside =>
    rw [(mem_ways_edge.mp h).2]
    exact ⟨[], rfl, rfl, by simp⟩
  | part label p ih =>
    obtain ⟨m, hm, rfl⟩ := mem_ways_part.mp h
    have hread := ih hm
    exact hread

theorem text_of_mem_ways (h : r ∈ p.ways a parts) : r.1.text = a.text := by
  obtain ⟨t, hafter, hbefore, -⟩ := read_of_mem_ways h
  simp [Place.text, hafter, hbefore]

theorem infix_upTo (p q : Place) : p.upTo q <:+: q.text := by
  have hsuffix : p.upTo q <:+ q.before.reverse :=
    List.reverse_suffix.mpr (List.take_prefix _ _)
  exact hsuffix.isInfix.trans (List.prefix_append _ _).isInfix

theorem upTo_of_mem_ways (h : r ∈ p.ways a parts) :
    a.after = a.upTo r.1 ++ r.1.after ∧ r.1.before = (a.upTo r.1).reverse ++ a.before := by
  obtain ⟨t, hafter, hbefore, -⟩ := read_of_mem_ways h
  have hread : a.upTo r.1 = t := by
    have hplaces := Place.upTo_append a.before t r.1.after
    rwa [← hafter, ← hbefore] at hplaces
  rw [hread]
  exact ⟨hafter, hbefore⟩

theorem upTo_of_end (h : r ∈ p.ways a parts) (hend : r.1.after = []) : a.upTo r.1 = a.after := by
  have hread := (upTo_of_mem_ways h).1
  rw [hend, List.append_nil] at hread
  exact hread.symm

theorem upTo_trans {q : Pattern κ} {m : Place × Parts κ} (hm : m ∈ p.ways a parts)
    {parts' : Parts κ} (hr : r ∈ q.ways m.1 parts') :
    a.upTo r.1 = a.upTo m.1 ++ m.1.upTo r.1 := by
  have hfirst := (upTo_of_mem_ways hm).2
  have hsecond := (upTo_of_mem_ways hr).2
  rw [hfirst, ← List.append_assoc, ← List.reverse_append] at hsecond
  have hplaces := Place.upTo_append a.before (a.upTo m.1 ++ m.1.upTo r.1) []
  rw [← hsecond] at hplaces
  exact hplaces

theorem text_of_mem_parts {s : List Char} (hs : a.text = s) (hparts : ∀ e ∈ parts, e.2.2.text = s)
    (h : r ∈ p.ways a parts) : ∀ e ∈ r.2, e.2.2.text = s := by
  induction p generalizing a parts r with
  | nothing =>
    rw [mem_ways_nothing.mp h]
    exact hparts
  | one accepts =>
    obtain ⟨d, t, -, -, rfl⟩ := mem_ways_one.mp h
    exact hparts
  | many accepts =>
    obtain ⟨t, -, -, -, heq⟩ := mem_ways_many.mp h
    rw [heq]
    exact hparts
  | few accepts =>
    obtain ⟨t, -, -, -, heq⟩ := mem_ways_many.mp (mem_ways_few.mp h)
    rw [heq]
    exact hparts
  | both p q ihp ihq =>
    obtain ⟨m, hm, hr⟩ := mem_ways_both.mp h
    exact ihq ((text_of_mem_ways hm).trans hs) (ihp hs hparts hm) hr
  | either p q ihp ihq =>
    rcases mem_ways_either.mp h with h | h
    · exact ihp hs hparts h
    · exact ihq hs hparts h
  | textStart =>
    rw [(mem_ways_textStart.mp h).2]
    exact hparts
  | textEnd =>
    obtain ⟨-, rfl⟩ := mem_ways_textEnd.mp h
    exact hparts
  | edge inside =>
    rw [(mem_ways_edge.mp h).2]
    exact hparts
  | part label p ih =>
    obtain ⟨m, hm, rfl⟩ := mem_ways_part.mp h
    have hstop : m.1.text = s := (text_of_mem_ways hm).trans hs
    exact List.forall_mem_cons.mpr ⟨hstop, ih hs hparts hm⟩

theorem parts_of_mem_ways (hp : p.unlabelled = true) (h : r ∈ p.ways a parts) : r.2 = parts := by
  induction p generalizing a parts r with
  | nothing => rw [mem_ways_nothing.mp h]
  | one accepts =>
    obtain ⟨d, s, -, -, rfl⟩ := mem_ways_one.mp h
    rfl
  | many accepts =>
    obtain ⟨t, -, -, -, hparts⟩ := mem_ways_many.mp h
    exact hparts
  | few accepts =>
    obtain ⟨t, -, -, -, hparts⟩ := mem_ways_many.mp (mem_ways_few.mp h)
    exact hparts
  | both p q ihp ihq =>
    obtain ⟨hp, hq⟩ := (Bool.and_eq_true _ _).mp hp
    obtain ⟨m, hm, hr⟩ := mem_ways_both.mp h
    rw [ihq hq hr, ihp hp hm]
  | either p q ihp ihq =>
    obtain ⟨hp, hq⟩ := (Bool.and_eq_true _ _).mp hp
    rcases mem_ways_either.mp h with h | h
    · exact ihp hp h
    · exact ihq hq h
  | textStart => rw [(mem_ways_textStart.mp h).2]
  | textEnd =>
    obtain ⟨-, rfl⟩ := mem_ways_textEnd.mp h
    rfl
  | edge inside => rw [(mem_ways_edge.mp h).2]
  | part label p ih => cases hp

end

/-! ## What is found in a text -/

section

variable {p : Pattern κ} {f : Found κ} {s : List Char}

/-- All that a match holds lies in the text. -/
structure Found.Within (f : Found κ) (s : List Char) : Prop where
  stop : f.stop.text = s
  parts : ∀ e ∈ f.parts, e.2.2.text = s

theorem within_of_matchAt? {a : Place} (ha : a.text = s) (h : p.matchAt? a = some f) :
    f.Within s := by
  obtain ⟨r, hr, rfl⟩ := exists_way_of_matchAt? h
  exact ⟨(text_of_mem_ways hr).trans ha, text_of_mem_parts ha (by simp) hr⟩

theorem within_of_findFrom {before after : List Char} (hs : before.reverse ++ after = s)
    (h : p.findFrom before after = some f) : f.Within s := by
  induction after generalizing before with
  | nil => exact within_of_matchAt? (a := ⟨before, []⟩) hs h
  | cons c after ih =>
    rw [findFrom] at h
    split at h
    · rename_i g hg
      cases h
      exact within_of_matchAt? (a := ⟨before, c :: after⟩) hs hg
    · exact ih (by simpa using hs) h

theorem within_of_mem_findAllFrom {n : Nat} {a : Place} (ha : a.text = s)
    (h : f ∈ p.findAllFrom n a) : f.Within s := by
  induction n generalizing a with
  | zero => cases h
  | succ n ih =>
    rw [findAllFrom] at h
    split at h
    · cases h
    · rename_i g hg
      have hwithin := within_of_findFrom ha hg
      have htail : ∀ l, (f ∈ l → f.Within s) → f ∈ g :: l → f.Within s := by
        intro l hl hf
        rcases List.mem_cons.mp hf with rfl | hf
        · exact hwithin
        · exact hl hf
      split at h
      · exact htail _ (ih hwithin.stop) h
      · split at h
        · exact htail [] (by simp) h
        · rename_i c rest hrest
          refine htail _ (ih ?_) h
          have hstop := hwithin.stop
          rw [Place.text, hrest] at hstop
          simpa [Place.text] using hstop

theorem Found.Within.infix_text (h : f.Within s) : f.text <:+: s :=
  h.stop ▸ infix_upTo _ _

theorem Found.Within.infix_part [BEq κ] (h : f.Within s) (label : κ) : f.part label <:+: s := by
  rw [Found.part, Found.part?]
  rcases he : f.parts.find? (fun e => e.1 == label) with _ | e
  · rw [he]
    exact List.nil_infix
  · rw [he, ← h.parts e (List.mem_of_find?_eq_some he)]
    exact infix_upTo _ _

end

/-! ## Where a pattern stands -/

/-- Some part of the pattern looks at what stands around it without reading it. -/
def looksAround : Pattern κ → Bool
  | both p q | either p q => p.looksAround || q.looksAround
  | part _ p => p.looksAround
  | textStart | textEnd | edge _ => true
  | nothing | one _ | many _ | few _ => false

/-- The pattern can be read over the text, wherever the text stands. -/
def Spells (p : Pattern κ) (t : List Char) : Prop :=
  ∀ before s parts, (⟨t.reverse ++ before, s⟩, parts) ∈ p.ways ⟨before, t ++ s⟩ parts

theorem spells_many {accepts : Char → Bool} {t : List Char} (ht : ∀ c ∈ t, accepts c = true) :
    (many accepts : Pattern κ).Spells t :=
  fun _ _ _ => mem_ways_many.mpr ⟨t, rfl, rfl, ht, rfl⟩

theorem Spells.both {p q : Pattern κ} {t u : List Char} (ht : p.Spells t) (hu : q.Spells u) :
    (both p q).Spells (t ++ u) := by
  intro before s parts
  rw [List.append_assoc, List.reverse_append, List.append_assoc]
  exact mem_ways_both.mpr ⟨_, ht before (u ++ s) parts, hu (t.reverse ++ before) s parts⟩

theorem Spells.reads {p : Pattern κ} {t : List Char} (h : p.Spells t) :
    ∀ c ∈ t, p.reads c = true := by
  obtain ⟨u, hafter, -, hu⟩ := read_of_mem_ways (h [] [] [])
  obtain rfl : t = u := List.append_cancel_right hafter
  exact hu

theorem spells_of_mem_ways {p : Pattern κ} {a : Place} {parts : Parts κ} {r : Place × Parts κ}
    (hp : p.looksAround = false) (hlabel : p.unlabelled = true) (h : r ∈ p.ways a parts) :
    ∃ t, a.after = t ++ r.1.after ∧ r.1.before = t.reverse ++ a.before ∧ p.Spells t := by
  induction p generalizing a parts r with
  | nothing =>
    rw [mem_ways_nothing.mp h]
    exact ⟨[], rfl, rfl, fun _ _ _ => mem_ways_nothing.mpr rfl⟩
  | one accepts =>
    obtain ⟨c, s, hafter, hc, rfl⟩ := mem_ways_one.mp h
    exact ⟨[c], hafter, rfl, fun _ s _ => mem_ways_one.mpr ⟨c, s, rfl, hc, rfl⟩⟩
  | many accepts =>
    obtain ⟨t, hafter, hbefore, ht⟩ := read_of_mem_many h
    exact ⟨t, hafter, hbefore, spells_many ht⟩
  | few accepts =>
    obtain ⟨t, hafter, hbefore, ht⟩ := read_of_mem_many (mem_ways_few.mp h)
    exact ⟨t, hafter, hbefore, fun before s parts => mem_ways_few.mpr (spells_many ht before s parts)⟩
  | both p q ihp ihq =>
    obtain ⟨hp, hq⟩ := Bool.or_eq_false_iff.mp hp
    obtain ⟨hlabel, hlabel'⟩ := (Bool.and_eq_true _ _).mp hlabel
    obtain ⟨m, hm, hr⟩ := mem_ways_both.mp h
    obtain ⟨t, hafter, hbefore, ht⟩ := ihp hp hlabel hm
    obtain ⟨u, hafter', hbefore', hu⟩ := ihq hq hlabel' hr
    refine ⟨t ++ u, ?_, ?_, ht.both hu⟩
    · rw [hafter, hafter', List.append_assoc]
    · rw [hbefore', hbefore, List.reverse_append, List.append_assoc]
  | either p q ihp ihq =>
    obtain ⟨hp, hq⟩ := Bool.or_eq_false_iff.mp hp
    obtain ⟨hlabel, hlabel'⟩ := (Bool.and_eq_true _ _).mp hlabel
    rcases mem_ways_either.mp h with h | h
    · obtain ⟨t, hafter, hbefore, ht⟩ := ihp hp hlabel h
      exact ⟨t, hafter, hbefore, fun before s parts => mem_ways_either.mpr (.inl (ht before s parts))⟩
    · obtain ⟨t, hafter, hbefore, ht⟩ := ihq hq hlabel' h
      exact ⟨t, hafter, hbefore, fun before s parts => mem_ways_either.mpr (.inr (ht before s parts))⟩
  | textStart => cases hp
  | textEnd => cases hp
  | edge inside => cases hp
  | part label p ih => cases hlabel

/-! ## Texts read up to the end -/

theorem tryMany_toEnd (accepts : Char → Bool) {next : Place → Option α}
    (hnext : ∀ a, a.after ≠ [] → next a = none) (before s : List Char) :
    tryMany accepts next before s =
      if s.all accepts then next ⟨s.reverse ++ before, []⟩ else none := by
  induction s generalizing before with
  | nil => rfl
  | cons c s ih =>
    have hhere : next ⟨before, c :: s⟩ = none := hnext _ (List.cons_ne_nil c s)
    by_cases hc : accepts c = true
    · rw [tryMany, if_pos hc, ih, hhere]
      simp only [List.all_cons, hc, Bool.true_and, List.reverse_cons, List.append_assoc,
        List.singleton_append]
      by_cases hs : s.all accepts = true
      · rw [if_pos hs]
        cases next ⟨s.reverse ++ c :: before, []⟩ <;> rfl
      · rw [if_neg hs]
    · rw [tryMany, if_neg hc, hhere]
      simp [hc]

/-! ## The shortest text -/

theorem tryFew_append {accepts : Char → Bool} {next : Place → Option α} {t : List Char}
    (ht : ∀ c ∈ t, accepts c = true) (before s : List Char)
    (hnone : ∀ u v, t = u ++ v → v ≠ [] → next ⟨u.reverse ++ before, v ++ s⟩ = none) :
    tryFew accepts next before (t ++ s) = tryFew accepts next (t.reverse ++ before) s := by
  induction t generalizing before with
  | nil => rfl
  | cons c t ih =>
    obtain ⟨hc, ht⟩ := List.forall_mem_cons.mp ht
    have hhere : next ⟨before, c :: (t ++ s)⟩ = none :=
      hnone [] (c :: t) rfl (List.cons_ne_nil c t)
    rw [List.cons_append, tryFew, hhere, if_pos hc, ih ht]
    · rw [List.reverse_cons, List.append_assoc, List.singleton_append]
    · intro u v huv hv
      have h := hnone (c :: u) v (by rw [huv, List.cons_append]) hv
      rwa [List.reverse_cons, List.append_assoc, List.singleton_append] at h

/-- What was read is the shortest text on which what follows succeeds. -/
theorem tryFew_eq_some {accepts : Char → Bool} {next : Place → Option α} {before s : List Char}
    {x : α} (h : tryFew accepts next before s = some x) :
    ∃ t u, s = t ++ u ∧ next ⟨t.reverse ++ before, u⟩ = some x ∧
      ∀ t₁ t₂, t = t₁ ++ t₂ → t₂ ≠ [] → next ⟨t₁.reverse ++ before, t₂ ++ u⟩ = none := by
  induction s generalizing before with
  | nil =>
    refine ⟨[], [], rfl, h, fun t₁ t₂ ht hne => ?_⟩
    exact absurd (List.append_eq_nil_iff.mp ht.symm).2 hne
  | cons c s ih =>
    rw [tryFew] at h
    split at h
    · rename_i y hy
      cases h
      refine ⟨[], c :: s, rfl, hy, fun t₁ t₂ ht hne => ?_⟩
      exact absurd (List.append_eq_nil_iff.mp ht.symm).2 hne
    · rename_i hnone
      split at h
      · obtain ⟨t, u, rfl, hx, hshort⟩ := ih h
        refine ⟨c :: t, u, rfl, by simpa using hx, fun t₁ t₂ ht hne => ?_⟩
        cases t₁ with
        | nil =>
          rw [List.nil_append] at ht
          rw [← ht]
          exact hnone
        | cons d t₁ =>
          obtain ⟨rfl, ht'⟩ := List.cons.inj ht
          have hlonger := hshort t₁ t₂ ht' hne
          simpa using hlonger
      · cases h

theorem exists_tryFew {accepts : Char → Bool} {next : Place → Option α} {t : List Char}
    (ht : ∀ c ∈ t, accepts c = true) {before s : List Char}
    (h : ∃ x, next ⟨t.reverse ++ before, s⟩ = some x) :
    ∃ x, tryFew accepts next before (t ++ s) = some x := by
  cases hnone : tryFew accepts next before (t ++ s) with
  | some x => exact ⟨x, rfl⟩
  | none =>
    have hreached : ⟨t.reverse ++ before, s⟩ ∈ (reachable accepts before (t ++ s)).reverse :=
      List.mem_reverse.mpr (mem_reachable.mpr ⟨t, rfl, rfl, ht⟩)
    rw [tryFew_eq_findSome] at hnone
    obtain ⟨x, hx⟩ := h
    rw [List.findSome?_eq_none_iff.mp hnone _ hreached] at hx
    cases hx

theorem tryFew_of_some {accepts : Char → Bool} {next : Place → Option α} {before s : List Char}
    {x : α} (h : next ⟨before, s⟩ = some x) : tryFew accepts next before s = some x := by
  cases s with
  | nil => exact h
  | cons c s => rw [tryFew, h]

end Pattern

end PlainSteps
