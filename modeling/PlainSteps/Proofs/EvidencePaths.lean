import PlainSteps.Evidence

/-!
# Which identifiers share a path

An identifier is a component of a path as it stands (`Evidence.Kept`), or it is rewritten to its stem, a
hyphen and the first digits of its digest (`Evidence.component_eq`).

* `Evidence.component_eq_iff` : two identifiers have the same component if and only if they are the same
  or clash (`Evidence.Clash`): one of them is, as it stands, what the other is rewritten to, or both are
  rewritten and agree in stem and digits.
* `Evidence.file_eq_iff` : below one root and for one run, the paths of two screenshots are the same if
  and only if they are of the same step and of identifiers with the same component.

A component has no slash in it (`Evidence.kept_component`), so a path is taken apart at its last slash.
-/

namespace PlainSteps

/-! ## Digests -/

namespace Digest

theorem length_bigEndian (count n : Nat) : (bigEndian count n).length = count := by
  induction count generalizing n with
  | zero => rfl
  | succ count ih => simp [bigEndian, ih]

theorem length_compress (state : List UInt32) (block : List UInt8) :
    (compress state block).length = state.length := by
  unfold compress
  split
  · simp only [List.length_cons]
  · rfl

theorem length_absorb (n : Nat) (state : List UInt32) (bytes : List UInt8) :
    (absorb n state bytes).length = state.length := by
  induction n generalizing state bytes with
  | zero => rfl
  | succ n ih => rw [absorb, ih, length_compress]

theorem length_sha256 (message : List UInt8) : (sha256 message).length = 32 := by
  simp only [sha256, List.length_flatMap, length_bigEndian, List.map_const', List.sum_replicate_nat,
    length_absorb]
  rfl

theorem length_hexDigest (message : List UInt8) : (hexDigest message).toList.length = 64 := by
  simp only [hexDigest, hex, String.toList_ofList, List.length_flatMap, List.length_cons,
    List.length_nil, List.map_const', List.sum_replicate_nat, length_sha256]

theorem mem_hexDigest {message : List UInt8} {c : Char} (h : c ∈ (hexDigest message).toList) :
    ∃ n < 16, c = hexDigit n := by
  simp only [hexDigest, hex, String.toList_ofList, List.mem_flatMap, List.mem_cons,
    List.not_mem_nil, or_false] at h
  obtain ⟨b, -, rfl | rfl⟩ := h
  · have hb := b.toNat_lt
    exact ⟨b.toNat / 16, by omega, rfl⟩
  · exact ⟨b.toNat % 16, by omega, rfl⟩

end Digest

namespace Evidence

/-! ## Components -/

/-- An identifier that is a component as it stands. -/
def Kept (id : String) : Prop :=
  id ≠ "" ∧ ∀ c ∈ id.toList, isKept c = true

instance (id : String) : Decidable (Kept id) :=
  decidable_of_iff (id ≠ "" ∧ id.toList.all isKept = true) (by rw [List.all_eq_true, Kept])

/-- The text of an identifier that is rewritten. -/
def stem (id : String) : String :=
  if id = "" then "_" else String.ofList (id.toList.map fun c => if isKept c then c else '_')

/-- The digits of an identifier that is rewritten. -/
def digits (id : String) : String :=
  String.ofList ((Digest.hexDigest id.toUTF8.toList).toList.take digestLength)

theorem map_eq_self_iff {cs : List Char} :
    (cs.map fun c => if isKept c then c else '_') = cs ↔ ∀ c ∈ cs, isKept c = true := by
  have hkept : isKept '_' = true := by decide
  constructor
  · intro h c hc
    rw [← h] at hc
    obtain ⟨d, -, rfl⟩ := List.mem_map.mp hc
    split
    · assumption
    · exact hkept
  · intro h
    refine (List.map_congr_left fun c hc => ?_).trans (List.map_id cs)
    rw [if_pos (h c hc), id]

theorem component_eq (id : String) :
    component id = if Kept id then id else stem id ++ "-" ++ digits id := by
  by_cases hempty : id = ""
  · subst hempty
    rfl
  · have hlist : id.toList ≠ [] := by simpa using hempty
    have hkept : Kept id ↔ (id.toList.map fun c => if isKept c then c else '_') = id.toList := by
      simp [Kept, hempty, map_eq_self_iff]
    simp only [component, stem, digits, hkept, if_neg hempty]
    simp [hlist]

theorem component_of_kept {id : String} (h : Kept id) : component id = id := by
  rw [component_eq, if_pos h]

theorem component_of_not_kept {id : String} (h : ¬Kept id) :
    component id = stem id ++ "-" ++ digits id := by
  rw [component_eq, if_neg h]

theorem length_digits (id : String) : (digits id).toList.length = 8 := by
  simp [digits, Digest.length_hexDigest, digestLength]

theorem isKept_hexDigit : ∀ n < 16, isKept (Digest.hexDigit n) = true := by
  decide

theorem isKept_of_mem_stem {id : String} {c : Char} (h : c ∈ (stem id).toList) : isKept c = true := by
  have hkept : isKept '_' = true := by decide
  unfold stem at h
  split at h
  · obtain rfl : c = '_' := by simpa using h
    exact hkept
  · rw [String.toList_ofList] at h
    obtain ⟨d, -, rfl⟩ := List.mem_map.mp h
    split
    · assumption
    · exact hkept

theorem isKept_of_mem_digits {id : String} {c : Char} (h : c ∈ (digits id).toList) :
    isKept c = true := by
  rw [digits, String.toList_ofList] at h
  obtain ⟨n, hn, rfl⟩ := Digest.mem_hexDigest (List.mem_of_mem_take h)
  exact isKept_hexDigit n hn

theorem kept_component (id : String) : Kept (component id) := by
  by_cases h : Kept id
  · rwa [component_of_kept h]
  · rw [component_of_not_kept h]
    have hhyphen : isKept '-' = true := by decide
    refine ⟨fun h => absurd (congrArg String.toList h) (by simp), fun c hc => ?_⟩
    simp only [String.toList_append, List.mem_append] at hc
    rcases hc with (hc | hc) | hc
    · exact isKept_of_mem_stem hc
    · obtain rfl : c = '-' := by simpa using hc
      exact hhyphen
    · exact isKept_of_mem_digits hc

theorem component_component (id : String) : component (component id) = component id :=
  component_of_kept (kept_component id)

/-- Different identifiers that have the same component: one of them is, as it stands, what the other is
rewritten to, or both are rewritten to the same text with the same digits. -/
def Clash (a b : String) : Prop :=
  ¬Kept a ∧ b = component a ∨ ¬Kept b ∧ a = component b ∨
    ¬Kept a ∧ ¬Kept b ∧ stem a = stem b ∧ digits a = digits b

instance (a b : String) : Decidable (Clash a b) :=
  inferInstanceAs (Decidable (_ ∨ _))

theorem component_eq_iff {a b : String} : component a = component b ↔ a = b ∨ Clash a b := by
  constructor
  · intro h
    by_cases ha : Kept a
    · rw [component_of_kept ha] at h
      by_cases hb : Kept b
      · exact .inl (h.trans (component_of_kept hb))
      · exact .inr (.inr (.inl ⟨hb, h⟩))
    · by_cases hb : Kept b
      · rw [component_of_kept hb] at h
        exact .inr (.inl ⟨ha, h.symm⟩)
      · rw [component_of_not_kept ha, component_of_not_kept hb, ← String.toList_inj] at h
        simp only [String.toList_append] at h
        obtain ⟨hstem, hdigits⟩ := List.append_inj' h (by rw [length_digits, length_digits])
        have hstem := List.append_cancel_right hstem
        exact .inr (.inr (.inr ⟨ha, hb, String.toList_inj.mp hstem, String.toList_inj.mp hdigits⟩))
  · rintro (rfl | ⟨-, rfl⟩ | ⟨-, rfl⟩ | ⟨ha, hb, hstem, hdigits⟩)
    · rfl
    · exact (component_component a).symm
    · exact component_component b
    · rw [component_of_not_kept ha, component_of_not_kept hb, hstem, hdigits]

/-! ## Paths -/

theorem ne_slash_of_isKept {c : Char} (h : isKept c = true) : c ≠ '/' := by
  rintro rfl
  exact absurd h (by decide)

theorem slash_not_mem_component (id : String) : '/' ∉ (component id).toList :=
  fun h => ne_slash_of_isKept ((kept_component id).2 _ h) rfl

theorem slash_not_mem_fileName (index : Nat) : '/' ∉ (fileName index).toList := by
  intro h
  simp only [fileName, String.toList_append, List.mem_append, Nat.toString_eq_repr] at h
  rcases h with (h | h) | h
  · exact absurd h (by decide)
  · have hdigit := Nat.isDigit_of_mem_toDigits (by decide) (by decide) (Nat.toList_repr ▸ h)
    exact absurd hdigit (by decide)
  · exact absurd h (by decide)

theorem fileName_injective {i j : Nat} (h : fileName i = fileName j) : i = j := by
  simp only [fileName, ← String.toList_inj, String.toList_append, Nat.toString_eq_ofList_toDigits,
    String.toList_ofList] at h
  have hdigits := List.append_cancel_left (List.append_cancel_right h)
  have hnumber := congrArg (fun ds => Nat.ofDigitChars 10 ds 0) hdigits
  simpa using hnumber

theorem eq_of_append_slash {p q a b : String} (ha : '/' ∉ a.toList) (hb : '/' ∉ b.toList)
    (h : p ++ "/" ++ a = q ++ "/" ++ b) : p = q ∧ a = b := by
  have hlist : p.toList ++ '/' :: a.toList = q.toList ++ '/' :: b.toList := by
    simpa using congrArg String.toList h
  simp only [← String.toList_inj]
  rcases List.append_eq_append_iff.mp hlist with
    ⟨_ | ⟨c, cs⟩, hbefore, hafter⟩ | ⟨_ | ⟨c, cs⟩, hbefore, hafter⟩
  · exact ⟨by simpa using hbefore.symm, (List.cons.inj hafter).2⟩
  · rw [List.cons_append, List.cons.injEq] at hafter
    exact absurd (by simp [hafter.2]) ha
  · exact ⟨by simpa using hbefore, (List.cons.inj hafter).2.symm⟩
  · rw [List.cons_append, List.cons.injEq] at hafter
    exact absurd (by simp [hafter.2]) hb

/-- A path that ends in a name. -/
def Named (path : String) : Prop :=
  ∃ c, path.toList.getLast? = some c ∧ c ≠ '/'

theorem join_of_named {base part : String} (hbase : Named base) (hpart : '/' ∉ part.toList) :
    Path.join base part = base ++ "/" ++ part := by
  obtain ⟨c, hlast, hc⟩ := hbase
  have hempty : base ≠ "" := by
    rintro rfl
    simp at hlast
  have hhead : part.toList.head? ≠ some '/' := fun h => hpart (List.mem_of_head? h)
  simp [Path.join, hhead, hempty, hlast, hc]

theorem named_join (base : String) {part : String} (hempty : part ≠ "") (hpart : '/' ∉ part.toList) :
    Named (Path.join base part) := by
  have hhead : part.toList.head? ≠ some '/' := fun h => hpart (List.mem_of_head? h)
  have hlist : part.toList ≠ [] := by simpa using hempty
  refine ⟨part.toList.getLast hlist, ?_, fun h => hpart (h ▸ List.getLast_mem hlist)⟩
  simp only [Path.join, beq_iff_eq, hhead, if_false]
  split <;> simp [List.getLast?_append, List.getLast?_cons, List.getLast?_eq_some_getLast hlist]

theorem folder_eq (root runId id : String) :
    folder root runId id = Path.join root (component runId) ++ "/" ++ component id :=
  join_of_named (named_join root (kept_component runId).1 (slash_not_mem_component runId))
    (slash_not_mem_component id)

theorem file_folder_eq (root runId id : String) (index : Nat) :
    file (folder root runId id) index = folder root runId id ++ "/" ++ fileName index :=
  join_of_named (named_join _ (kept_component id).1 (slash_not_mem_component id))
    (slash_not_mem_fileName index)

/-- Two screenshots of a run share a path if and only if they are of steps with one number and of
identifiers with one component. -/
theorem file_eq_iff (root runId : String) {a b : String} {i j : Nat} :
    file (folder root runId a) i = file (folder root runId b) j ↔
      i = j ∧ (a = b ∨ Clash a b) := by
  rw [← component_eq_iff]
  constructor
  · intro h
    rw [file_folder_eq, file_folder_eq] at h
    obtain ⟨hfolder, hname⟩ := eq_of_append_slash (slash_not_mem_fileName i)
      (slash_not_mem_fileName j) h
    rw [folder_eq, folder_eq] at hfolder
    exact ⟨fileName_injective hname, (eq_of_append_slash (slash_not_mem_component a)
      (slash_not_mem_component b) hfolder).2⟩
  · rintro ⟨rfl, h⟩
    rw [file_folder_eq, file_folder_eq, folder_eq, folder_eq, h]

end Evidence

end PlainSteps
