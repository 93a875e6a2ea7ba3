import Mathlib.Data.String.Basic
import PlainSteps.Path

/-!
# The names in a path

A path is split at its slashes (`Path.splitOn_slash`), so what stands between two of them does not depend on
the rest. A path put together from a base and names is therefore read back into the names of the base and
these (`Path.components_below`).
-/

namespace PlainSteps.Path

/-! ## Splitting at slashes -/

open String in
/-- The splitting of a text behind `l ++ m`, where `m` is what has been passed of the piece in progress. -/
theorem splitOnAux_slash (l m r : List Char) (acc : List String) :
    splitOnAux (ofList (l ++ m ++ r)) "/" ⟨utf8Len l⟩ ⟨utf8Len l + utf8Len m⟩ 0 acc =
      acc.reverse ++ (List.splitOnPPrepend (· == '/') r m.reverse).map ofList := by
  induction r generalizing l m acc with
  | nil =>
    have hend : Pos.Raw.atEnd (ofList (l ++ m ++ [])) ⟨utf8Len l + utf8Len m⟩ = true := by
      have h := (atEnd_of_valid (l ++ m) []).mpr rfl
      rwa [utf8Len_append] at h
    rw [splitOnAux, if_pos hend]
    have hextract := extract_of_valid l m []
    rw [hextract]
    simp
  | cons c r ih =>
    have hend : ¬Pos.Raw.atEnd (ofList (l ++ m ++ c :: r)) ⟨utf8Len l + utf8Len m⟩ = true := by
      have h := (atEnd_of_valid (l ++ m) (c :: r)).not.mpr (by simp)
      rwa [utf8Len_append] at h
    have hget : Pos.Raw.get (ofList (l ++ m ++ c :: r)) ⟨utf8Len l + utf8Len m⟩ = c := by
      have h := get_of_valid (l ++ m) (c :: r)
      rwa [utf8Len_append] at h
    have hnext : Pos.Raw.next (ofList (l ++ m ++ c :: r)) ⟨utf8Len l + utf8Len m⟩ =
        ⟨utf8Len l + utf8Len m + c.utf8Size⟩ := by
      have h := next_of_valid (l ++ m) c r
      rwa [utf8Len_append] at h
    have hslash : Pos.Raw.get "/" 0 = '/' := by decide
    have hunoffset : ∀ p : Pos.Raw, p.unoffsetBy 0 = p := fun p => rfl
    rw [splitOnAux, if_neg hend, hget, hslash, List.splitOnPPrepend_cons_eq_if]
    simp only [hnext, hunoffset]
    by_cases hc : (c == '/') = true
    · have hatEnd : Pos.Raw.atEnd "/" (Pos.Raw.next "/" 0) = true := by decide
      have hpiece : Pos.Raw.unoffsetBy ⟨utf8Len l + utf8Len m + c.utf8Size⟩ (Pos.Raw.next "/" 0) =
          ⟨utf8Len l + utf8Len m⟩ := by
        obtain rfl : c = '/' := beq_iff_eq.mp hc
        have hwidth : Pos.Raw.next "/" 0 = ⟨'/'.utf8Size⟩ := by decide
        rw [hwidth]
        simp [Pos.Raw.unoffsetBy]
      rw [if_pos hc, if_pos hatEnd, if_pos hc, hpiece]
      have h := ih (l ++ m ++ [c]) [] (ofList m :: acc)
      have hextract := extract_of_valid l m (c :: r)
      rw [hextract]
      simpa [Nat.add_assoc] using h
    · rw [if_neg hc, if_neg hc]
      have h := ih l (m ++ [c]) acc
      simpa [Nat.add_assoc] using h

theorem splitOn_slash (s : String) :
    s.splitOn "/" = (s.toList.splitOnP (· == '/')).map String.ofList := by
  have haux := splitOnAux_slash [] [] s.toList []
  simpa [String.splitOn] using haux

theorem splitOn_append_slash (s t : String) :
    (s ++ "/" ++ t).splitOn "/" = s.splitOn "/" ++ t.splitOn "/" := by
  have hlist : (s ++ "/" ++ t).toList = s.toList ++ '/' :: t.toList := by simp
  rw [splitOn_slash, splitOn_slash, splitOn_slash, hlist, List.splitOnP_append_cons _ _ (by rfl),
    List.map_append]

theorem splitOn_of_notMem {s : String} (h : '/' ∉ s.toList) : s.splitOn "/" = [s] := by
  have hnone : ∀ c ∈ s.toList, (c == '/') = false := by
    intro c hc
    exact beq_eq_false_iff_ne.mpr fun heq => h (heq ▸ hc)
  rw [splitOn_slash, List.splitOnP_eq_singleton hnone, List.map_singleton, String.ofList_toList]

/-! ## Names -/

/-- The name of a file or folder, as it may follow a slash. -/
structure IsName (name : String) : Prop where
  ne_empty : name ≠ ""
  ne_here : name ≠ "."
  no_slash : '/' ∉ name.toList

instance (name : String) : Decidable (IsName name) :=
  decidable_of_iff (name ≠ "" ∧ name ≠ "." ∧ '/' ∉ name.toList)
    ⟨fun ⟨hempty, hhere, hslash⟩ => ⟨hempty, hhere, hslash⟩,
      fun h => ⟨h.ne_empty, h.ne_here, h.no_slash⟩⟩

theorem components_append_slash (base part : String) :
    components (base ++ "/" ++ part) = components base ++ components part := by
  rw [components, splitOn_append_slash, List.filter_append]
  rfl

theorem components_name {name : String} (h : IsName name) : components name = [name] := by
  rw [components, splitOn_of_notMem h.no_slash]
  simp [h.ne_empty, h.ne_here]

theorem components_empty : components "" = [] := by
  rw [components, splitOn_of_notMem (by simp)]
  rfl

theorem components_join (base : String) {name : String} (h : IsName name) :
    components (join base name) = components base ++ [name] := by
  have hhead : name.toList.head? ≠ some '/' := fun hslash => h.no_slash (List.mem_of_head? hslash)
  rw [join, if_neg (by simpa using hhead)]
  split
  next hopen =>
    rcases base.toList.eq_nil_or_concat with hnil | ⟨stem, last, hlast⟩
    · obtain rfl : base = "" := by simpa using hnil
      rw [String.empty_append, components_name h, components_empty, List.nil_append]
    · -- the slash at the end of the base has nothing after it yet
      have hne : base.isEmpty = false := by
        rw [← Bool.not_eq_true, String.isEmpty_iff]
        rintro rfl
        simp at hlast
      obtain rfl : last = '/' := by simpa [hne, hlast] using hopen
      obtain rfl : base = String.ofList stem ++ "/" ++ "" := by
        rw [← String.toList_inj, hlast]
        simp
      rw [components_append_slash, components_empty, List.append_nil, String.append_empty,
        components_append_slash, components_name h]
  next => rw [components_append_slash, components_name h]

theorem components_below (base : String) {names : List String} (h : ∀ name ∈ names, IsName name) :
    components (below base names) = components base ++ names := by
  induction names generalizing base with
  | nil => rw [below, List.foldl_nil, List.append_nil]
  | cons name names ih =>
    obtain ⟨hname, hnames⟩ := List.forall_mem_cons.mp h
    have hbelow : below base (name :: names) = below (join base name) names := rfl
    rw [hbelow, ih _ hnames, components_join base hname, List.append_assoc, List.singleton_append]

end PlainSteps.Path
