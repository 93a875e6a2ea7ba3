import Mathlib.Data.List.TakeWhile
import PlainSteps.Step

/-!
# Addresses on the site of a run

`Address.navigation_on_site`: an address that begins with a slash is taken on the site of the base. It
gets the origin of the base in front of it, whatever it holds, and that is the origin of the result.

* `Address.IsOrigin` : what the origin of an address is, told by its parts.
* `Address.splitScheme?_eq_some_iff` : an address is parted after its first `://`.
* `Address.origin?_eq_some_iff` : the origin that is found is the one that the address has.
* `Address.IsOrigin.append` : the origin of an address does not depend on what follows it.
-/

namespace PlainSteps.Address

open Text

/-- What stands between the scheme and the host of an address. -/
def separator : List Char := "://".toList

/-- No separator begins before the end of `scheme`. -/
def FirstAfter (scheme address : List Char) : Prop :=
  ∀ before after, address = before ++ separator ++ after → scheme <+: before

/-- The origin of an address goes through the first `://`, and then up to the next slash, question mark
or number sign, or to the end where there is none. -/
inductive IsOrigin : List Char → List Char → Prop where
  | intro {scheme host rest : List Char}
      (hscheme : FirstAfter scheme (scheme ++ separator ++ host ++ rest))
      (hhost : ∀ c ∈ host, c ≠ '/' ∧ c ≠ '?' ∧ c ≠ '#')
      (hrest : ∀ c ∈ rest.head?, c = '/' ∨ c = '?' ∨ c = '#') :
      IsOrigin (scheme ++ separator ++ host) (scheme ++ separator ++ host ++ rest)

/-! ## The first separator -/

theorem startsWith_separator_iff {s : List Char} :
    startsWith separator s = true ↔ ∃ after, s = separator ++ after := by
  rw [startsWith, List.isPrefixOf_iff_prefix]
  exact exists_congr fun _ => eq_comm

theorem splitScheme?_cons (c : Char) (s : List Char) : splitScheme? (c :: s) =
    if startsWith separator (c :: s) then some (separator, s.drop 2)
    else (splitScheme? s).map fun r => (c :: r.1, r.2) :=
  rfl

theorem FirstAfter.append {scheme t : List Char} (h : FirstAfter scheme (scheme ++ separator ++ t))
    (u : List Char) : FirstAfter scheme (scheme ++ separator ++ u) := by
  intro before after hsplit
  have hscheme : scheme <+: scheme ++ separator ++ u :=
    (List.prefix_append _ _).trans (List.prefix_append _ _)
  have hbefore : before <+: scheme ++ separator ++ u := by
    rw [hsplit]
    exact (List.prefix_append _ _).trans (List.prefix_append _ _)
  rcases List.prefix_or_prefix_of_prefix hscheme hbefore with hle | ⟨d, rfl⟩
  · exact hle
  -- a separator that begins earlier ends before `u` does
  have hwithin : separator ++ after = d ++ separator ++ u := by
    simpa using hsplit.symm
  have hearly : separator <+: d ++ separator := by
    have hlong : separator.length ≤ (d ++ separator).length := by simp
    exact List.prefix_of_prefix_length_le ⟨after, hwithin⟩ (List.prefix_append _ u) hlong
  obtain ⟨after', hafter'⟩ := hearly
  refine h before (after' ++ t) ?_
  calc before ++ d ++ separator ++ t = before ++ (d ++ separator) ++ t := by simp
    _ = before ++ separator ++ (after' ++ t) := by simp [← hafter']

theorem FirstAfter.cons {c : Char} {scheme s : List Char} (h : FirstAfter scheme s)
    (hc : startsWith separator (c :: s) = false) : FirstAfter (c :: scheme) (c :: s) := by
  intro before after hsplit
  cases before with
  | nil =>
    rw [startsWith_separator_iff.mpr ⟨after, hsplit⟩] at hc
    cases hc
  | cons d before =>
    obtain ⟨rfl, hrest⟩ := List.cons.inj hsplit
    exact List.cons_prefix_cons.mpr ⟨rfl, h before after hrest⟩

theorem splitScheme?_spec {s u v : List Char} (h : splitScheme? s = some (u, v)) :
    ∃ scheme, u = scheme ++ separator ∧ s = scheme ++ separator ++ v ∧ FirstAfter scheme s := by
  induction s generalizing u with
  | nil => cases h
  | cons c s ih =>
    rw [splitScheme?_cons] at h
    split at h
    · rename_i hstart
      obtain ⟨after, hafter⟩ := startsWith_separator_iff.mp hstart
      obtain ⟨rfl, rfl⟩ : separator = u ∧ s.drop 2 = v := by simpa using h
      obtain ⟨rfl, rfl⟩ := List.cons.inj hafter
      exact ⟨[], rfl, rfl, fun before _ _ => List.nil_prefix⟩
    · rename_i hstart
      obtain ⟨⟨u, v⟩, hr, heq⟩ := Option.map_eq_some_iff.mp h
      cases heq
      obtain ⟨scheme, rfl, hs, hfirst⟩ := ih hr
      refine ⟨c :: scheme, rfl, congrArg _ hs, hfirst.cons ?_⟩
      simpa using hstart

theorem exists_splitScheme? {s : List Char} (h : separator <:+: s) : ∃ r, splitScheme? s = some r := by
  induction s with
  | nil => cases List.infix_nil.mp h
  | cons c s ih =>
    rw [splitScheme?_cons]
    split
    · exact ⟨_, rfl⟩
    · rename_i hstart
      have hlater : separator <:+: s := by
        refine (List.infix_cons_iff.mp h).resolve_left fun hprefix => hstart ?_
        exact List.isPrefixOf_iff_prefix.mpr hprefix
      obtain ⟨r, hr⟩ := ih hlater
      exact ⟨_, by rw [hr, Option.map_some]⟩

theorem splitScheme?_eq_some_iff {s u v : List Char} : splitScheme? s = some (u, v) ↔
    ∃ scheme, u = scheme ++ separator ∧ s = scheme ++ separator ++ v ∧ FirstAfter scheme s := by
  refine ⟨splitScheme?_spec, ?_⟩
  rintro ⟨scheme, rfl, hs, hfirst⟩
  obtain ⟨⟨u, w⟩, hr⟩ := exists_splitScheme? (s := s) ⟨scheme, v, hs.symm⟩
  obtain ⟨scheme', rfl, hs', hfirst'⟩ := splitScheme?_spec hr
  obtain rfl : scheme = scheme' :=
    (hfirst _ _ hs').eq_of_length_le (hfirst' _ _ hs).length_le
  obtain rfl : v = w := List.append_cancel_left (hs.symm.trans hs')
  exact hr

/-! ## The origin -/

theorem endsHost_iff {c : Char} : endsHost c = true ↔ c = '/' ∨ c = '?' ∨ c = '#' := by
  simp [endsHost, or_assoc]

theorem endsHost_eq_false_iff {c : Char} : endsHost c = false ↔ c ≠ '/' ∧ c ≠ '?' ∧ c ≠ '#' := by
  simp [endsHost, and_assoc]

theorem origin?_eq_some_iff {address origin : List Char} :
    origin? address = some origin ↔ IsOrigin origin address := by
  rw [origin?, Option.map_eq_some_iff]
  constructor
  · rintro ⟨⟨u, v⟩, hr, rfl⟩
    obtain ⟨scheme, rfl, hs, hfirst⟩ := splitScheme?_eq_some_iff.mp hr
    have hv := List.takeWhile_append_dropWhile (p := fun c => !endsHost c) (l := v)
    rw [← hv, ← List.append_assoc] at hs
    subst hs
    refine .intro hfirst (fun c hc => ?_) fun c hc => ?_
    · exact endsHost_eq_false_iff.mp (by simpa using List.mem_takeWhile_imp hc)
    · have hnot := List.head?_dropWhile_not (fun c => !endsHost c) v
      rw [Option.mem_def.mp hc] at hnot
      exact endsHost_iff.mp (by simpa using hnot)
  · rintro @⟨scheme, host, rest, hfirst, hhost, hrest⟩
    refine ⟨(scheme ++ separator, host ++ rest),
      splitScheme?_eq_some_iff.mpr ⟨scheme, rfl, List.append_assoc _ _ _, hfirst⟩, ?_⟩
    have hinside : ∀ c ∈ host, (!endsHost c) = true := by
      intro c hc
      simp [endsHost_eq_false_iff.mpr (hhost c hc)]
    have hend : rest.takeWhile (fun c => !endsHost c) = [] := by
      cases rest with
      | nil => rfl
      | cons c rest => simp [endsHost_iff.mpr (hrest c rfl)]
    simp only [List.takeWhile_append_of_pos hinside, hend, List.append_nil]

theorem exists_isOrigin_iff {address : List Char} :
    (∃ origin, IsOrigin origin address) ↔ separator <:+: address := by
  constructor
  · rintro ⟨_, @⟨scheme, host, rest, -, -, -⟩⟩
    exact ⟨scheme, host ++ rest, (List.append_assoc _ _ _).symm⟩
  · intro h
    obtain ⟨r, hr⟩ := exists_splitScheme? h
    exact ⟨_, origin?_eq_some_iff.mp (by rw [origin?, hr, Option.map_some])⟩

theorem origin?_eq_none {address : List Char} (h : ¬separator <:+: address) : origin? address = none :=
  Option.eq_none_iff_forall_ne_some.mpr fun _ ho => h (exists_isOrigin_iff.mp ⟨_, origin?_eq_some_iff.mp ho⟩)

theorem IsOrigin.append {origin address : List Char} (h : IsOrigin origin address) {url : List Char}
    (hurl : ∀ c ∈ url.head?, c = '/' ∨ c = '?' ∨ c = '#') : IsOrigin origin (origin ++ url) := by
  obtain @⟨scheme, host, rest, hfirst, hhost, -⟩ := h
  rw [List.append_assoc] at hfirst
  refine .intro ?_ hhost hurl
  rw [List.append_assoc]
  exact hfirst.append _

theorem IsOrigin.head? {origin address : List Char} (h : IsOrigin origin address) (url : List Char) :
    (origin ++ url).head? = address.head? := by
  obtain @⟨scheme, host, rest, -, -, -⟩ := h
  cases scheme <;> rfl

/-! ## Addresses made absolute -/

theorem absolute_of_slash {base url : String} {origin : List Char} (horigin : IsOrigin origin base.toList)
    (hurl : url.toList.head? = some '/') : absolute base url = String.ofList origin ++ url := by
  rw [absolute, if_pos (beq_iff_eq.mpr hurl), origin?_eq_some_iff.mpr horigin]

theorem absolute_of_not_slash (base : String) {url : String} (hurl : url.toList.head? ≠ some '/') :
    absolute base url = url :=
  if_neg fun h => hurl (beq_iff_eq.mp h)

theorem absolute_of_no_origin {base : String} (hbase : ¬separator <:+: base.toList) (url : String) :
    absolute base url = url := by
  rw [absolute, origin?_eq_none hbase]
  exact ite_self url

/-- An address that is made absolute is left alone from then on, unless the base itself begins with a
slash. -/
theorem absolute_absolute {base : String} (hbase : base.toList.head? ≠ some '/') (url : String) :
    absolute base (absolute base url) = absolute base url := by
  by_cases hsite : separator <:+: base.toList
  · by_cases hurl : url.toList.head? = some '/'
    · obtain ⟨origin, horigin⟩ := exists_isOrigin_iff.mpr hsite
      refine absolute_of_not_slash base ?_
      rw [absolute_of_slash horigin hurl, String.toList_append, String.toList_ofList, horigin.head?]
      exact hbase
    · rw [absolute_of_not_slash base hurl, absolute_of_not_slash base hurl]
  · rw [absolute_of_no_origin hsite, absolute_of_no_origin hsite]

/-- On a base with a scheme an address that begins with a slash gets the origin of the base in front of
it, and has that origin then. Any other address, one with a scheme of its own among them, and every address
on a base without a scheme is left as it is. A step that opens a page requests the address that results,
once. -/
theorem navigation_on_site (base url : String) :
    (separator <:+: base.toList → ∃ origin, origin? base.toList = some origin ∧
      IsOrigin origin base.toList ∧
      (url.toList.head? = some '/' → absolute base url = String.ofList origin ++ url ∧
        origin? (absolute base url).toList = some origin ∧ IsOrigin origin (absolute base url).toList)) ∧
    (url.toList.head? ≠ some '/' ∨ ¬separator <:+: base.toList → absolute base url = url) ∧
    (base.toList.head? ≠ some '/' → absolute base (absolute base url) = absolute base url) ∧
    ∀ (x : Step.Context) (vars : Variables), x.baseUrl = base →
      ∃ next, Step.perform x (.navigate url) vars =
        .call (.goto (absolute base url) .domContentLoaded x.execution.navigationTimeout)
          (some (x.execution.navigationTimeout + Routine.grace)) next ∧
        ∀ reply, ∃ result, next reply = .done result := by
  refine ⟨fun hsite => ?_, fun h => ?_, fun hbase => absolute_absolute hbase url, ?_⟩
  · obtain ⟨origin, horigin⟩ := exists_isOrigin_iff.mpr hsite
    refine ⟨origin, origin?_eq_some_iff.mpr horigin, horigin, fun hurl => ?_⟩
    have habsolute := absolute_of_slash horigin hurl
    have hsame : IsOrigin origin (absolute base url).toList := by
      rw [habsolute, String.toList_append, String.toList_ofList]
      refine horigin.append fun c hc => ?_
      rw [hurl] at hc
      exact .inl (Option.some.inj hc).symm
    exact ⟨habsolute, origin?_eq_some_iff.mpr hsame, hsame⟩
  · rcases h with hurl | hbase
    · exact absolute_of_not_slash base hurl
    · exact absolute_of_no_origin hbase url
  · rintro x vars rfl
    refine ⟨_, rfl, fun reply => ?_⟩
    cases reply <;> exact ⟨_, rfl⟩

/-- Neither a second separator nor an address that names a host of its own leads to another site. -/
theorem navigation_on_site_detour :
    let base := "http://bücher.test:8080?next=https://other.test/"
    separator <:+: base.toList ∧ "//other.test/a".toList.head? = some '/' ∧
      absolute base "//other.test/a" = "http://bücher.test:8080//other.test/a" ∧
      origin? (absolute base "//other.test/a").toList = some "http://bücher.test:8080".toList ∧
      base.toList.head? ≠ some '/' ∧
      absolute base (absolute base "//other.test/a") = "http://bücher.test:8080//other.test/a" ∧
      "https://other.test/".toList.head? ≠ some '/' ∧
      absolute base "https://other.test/" = "https://other.test/" := by
  intro base
  have hsite : separator <:+: base.toList :=
    ⟨"http".toList, "bücher.test:8080?next=https://other.test/".toList, by decide⟩
  have hurl : "//other.test/a".toList.head? = some '/' := by decide
  have hother : "https://other.test/".toList.head? ≠ some '/' := by decide
  have hbase : base.toList.head? ≠ some '/' := by decide
  obtain ⟨hslash, -, htwice, -⟩ := navigation_on_site base "//other.test/a"
  obtain ⟨-, hkept, -⟩ := navigation_on_site base "https://other.test/"
  obtain ⟨origin, horigin, -, hresult⟩ := hslash hsite
  obtain ⟨habsolute, hagain, -⟩ := hresult hurl
  obtain rfl : "http://bücher.test:8080".toList = origin := by
    have h : origin? base.toList = some "http://bücher.test:8080".toList := by decide
    exact Option.some.inj (h.symm.trans horigin)
  have hjoined : absolute base "//other.test/a" = "http://bücher.test:8080//other.test/a" := by
    rw [habsolute]
    decide
  exact ⟨hsite, hurl, hjoined, hagain, hbase, (htwice hbase).trans hjoined, hother, hkept (.inl hother)⟩

end PlainSteps.Address
