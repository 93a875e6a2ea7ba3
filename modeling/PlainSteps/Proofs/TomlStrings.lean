import Mathlib.Data.List.TakeWhile
import PlainSteps.Toml.Reader
import PlainSteps.Toml.Writer

/-!
# Strings of TOML are read as they are written

`Toml.textRest?_textChars`: a text is read back whichever of the four notations it is written in, and what
follows it is left over, unless that begins with another quote.

* Between single marks a text is read character by character (`basicRest?_text`, `literalRest?_text`).
* Between three marks the reader looks at each place for the closing ones (`closing?`). Up to two marks of
  the text itself may stand before them or before another character: the writer escapes every third of a
  run (`longBasicChars_cases`), and takes the notation without escapes only for texts with shorter runs
  (`marks_cases`).
-/

namespace PlainSteps.Toml

open Text

/-! ## Characters -/

theorem capitalCode_spec : ∀ n : Fin 128, isControl (Char.ofNat n) = true →
    capitalCode (Char.ofNat n) =
        ['\\', 'u', '0', '0', upper (Nat.digitChar (n / 16)), upper (Nat.digitChar (n % 16))] ∧
      hexValue? 0 ['0', '0', upper (Nat.digitChar (n / 16)), upper (Nat.digitChar (n % 16))] = some n.val := by
  decide +kernel

theorem lt_of_isControl {c : Char} (h : isControl c = true) : c.toNat < 128 := by
  simp only [isControl, Bool.and_eq_true, Bool.or_eq_true, decide_eq_true_eq, beq_iff_eq] at h
  omega

theorem isShown_of_not_isControl {c : Char} (h : isControl c = false) (hline : c ≠ '\n') :
    isShown c = true := by
  by_cases htab : c = '\t'
  · subst htab
    rfl
  · have hcode : ¬(c.toNat < 32 ∨ c.toNat = 127) := by simpa [isControl, htab, hline] using h
    simp only [isShown, Bool.or_eq_true, Bool.and_eq_true, decide_eq_true_eq, bne_iff_ne]
    omega

theorem basicChar_cases (c : Char) :
    (basicChar c = [c] ∧ c ≠ '"' ∧ c ≠ '\\' ∧ isShown c = true) ∨
      ∃ u, basicChar c = '\\' :: u ∧ ∀ s, escape? (u ++ s) = some (c, s) := by
  by_cases hescaped : c ∈ ['"', '\\', '\t', '\n', '\r', Char.ofNat 8, Char.ofNat 12]
  · right
    simp only [List.mem_cons, List.not_mem_nil, or_false] at hescaped
    rcases hescaped with rfl | rfl | rfl | rfl | rfl | rfl | rfl
    all_goals exact ⟨_, rfl, fun _ => rfl⟩
  · simp only [List.mem_cons, List.not_mem_nil, or_false, not_or] at hescaped
    obtain ⟨hquote, hslash, htab, hline, hreturn, hback, hfeed⟩ := hescaped
    have hchar : basicChar c = if isControl c then capitalCode c else [c] := by
      simp only [basicChar, if_neg hquote, if_neg hslash, if_neg hline, if_neg hreturn, if_neg htab,
        if_neg hback, if_neg hfeed]
    cases hcontrol : isControl c with
    | true =>
      right
      obtain ⟨hdigits, hvalue⟩ := capitalCode_spec ⟨c.toNat, lt_of_isControl hcontrol⟩
        (by rw [Char.ofNat_toNat]; exact hcontrol)
      rw [Char.ofNat_toNat] at hdigits
      rw [hchar, hcontrol, if_pos rfl, hdigits]
      refine ⟨_, rfl, fun s => ?_⟩
      have hcode := lt_of_isControl hcontrol
      have hpoint : c.toNat < 0xD800 := by omega
      simp [escape?, codePoint?, hvalue, hpoint, Char.ofNat_toNat]
    | false =>
      left
      rw [hchar, hcontrol, if_neg Bool.false_ne_true]
      exact ⟨rfl, hquote, hslash, isShown_of_not_isControl hcontrol hline⟩

/-! ## Texts on one line -/

theorem basicRest?_basicChar (c : Char) (fuel : Nat) (done s : List Char) :
    basicRest? (fuel + 1) done (basicChar c ++ s) = basicRest? fuel (c :: done) s := by
  obtain ⟨hchar, hquote, hslash, hshown⟩ | ⟨u, hchar, hescape⟩ := basicChar_cases c
  · rw [hchar, List.singleton_append, basicRest?, if_pos hshown]
    · exact hquote
    · exact hslash
  · rw [hchar, List.cons_append, basicRest?, hescape]
    rfl

theorem basicChar_ne_nil (c : Char) : basicChar c ≠ [] := by
  obtain ⟨hchar, -⟩ | ⟨u, hchar, -⟩ := basicChar_cases c
  · exact hchar ▸ List.cons_ne_nil _ _
  · exact hchar ▸ List.cons_ne_nil _ _

theorem length_le_flatMap_basicChar (cs : List Char) : cs.length ≤ (cs.flatMap basicChar).length := by
  induction cs with
  | nil => exact le_rfl
  | cons c cs ih =>
    have hpos := List.length_pos_iff.mpr (basicChar_ne_nil c)
    rw [List.flatMap_cons, List.length_append, List.length_cons]
    omega

theorem basicRest?_text (cs : List Char) {fuel : Nat} (h : cs.length < fuel) (done s : List Char) :
    basicRest? fuel done (cs.flatMap basicChar ++ '"' :: s) = some (done.reverse ++ cs, s) := by
  induction cs generalizing fuel done with
  | nil =>
    obtain ⟨fuel, rfl⟩ := Nat.exists_eq_succ_of_ne_zero (by omega : fuel ≠ 0)
    simp [basicRest?]
  | cons c cs ih =>
    obtain ⟨fuel, rfl⟩ := Nat.exists_eq_succ_of_ne_zero (by omega : fuel ≠ 0)
    rw [List.flatMap_cons, List.append_assoc, basicRest?_basicChar, ih (by simpa using h)]
    simp

theorem literalRest?_text {cs : List Char} (h : ∀ c ∈ cs, isShown c = true ∧ c ≠ '\'') (s : List Char) :
    literalRest? (cs ++ '\'' :: s) = some (cs, s) := by
  have hbody : (cs ++ '\'' :: s).takeWhile (fun c => isShown c && c != '\'') = cs := by
    rw [List.takeWhile_append_of_pos fun c hc => by simpa using h c hc]
    simp
  unfold literalRest?
  dsimp only
  rw [hbody, List.drop_left]
  rfl

/-! ## Texts over several lines -/

theorem takeWhile_marks (quote : Char) (j : Nat) {s : List Char} (hs : s.head? ≠ some quote) :
    (List.replicate j quote ++ s).takeWhile (· == quote) = List.replicate j quote := by
  have hmarks : ∀ c ∈ List.replicate j quote, (c == quote) = true := fun c hc =>
    beq_iff_eq.mpr (List.eq_of_mem_replicate hc)
  rw [List.takeWhile_append_of_pos hmarks]
  cases s with
  | nil => simp
  | cons c s =>
    have hc : c ≠ quote := fun heq => hs (congrArg some heq)
    simp [hc]

theorem closing?_before {quote c : Char} {j : Nat} (hj : j ≤ 2) (hc : c ≠ quote) (s : List Char) :
    closing? quote (List.replicate j quote ++ c :: s) = none := by
  have hrun := takeWhile_marks quote j (s := c :: s) (by simpa using hc)
  unfold closing?
  dsimp only
  rw [hrun, List.length_replicate, if_pos (by omega)]

theorem closing?_marks {quote : Char} {j : Nat} (hj : j ≤ 2) {s : List Char} (hs : s.head? ≠ some quote) :
    closing? quote (List.replicate j quote ++ quote :: quote :: quote :: s) =
      some (List.replicate j quote, s) := by
  have hsum : List.replicate j quote ++ quote :: quote :: quote :: s =
      List.replicate (j + 3) quote ++ s := by
    rw [← List.replicate_append_replicate, List.append_assoc]
    rfl
  have hrun := takeWhile_marks quote (j + 3) hs
  have hextra : min (j + 3 - 3) 2 = j := by omega
  have hdrop : (List.replicate (j + 3) quote ++ s).drop (3 + j) = s := by
    rw [Nat.add_comm 3 j]
    exact List.drop_left' (List.length_replicate)
  unfold closing?
  dsimp only
  rw [hsum, hrun, List.length_replicate, if_neg (by omega), hextra, hdrop]

/-- After `k` marks of a run at most `2 - k` follow unescaped. -/
theorem longBasicChars_cases {k : Nat} (hk : k ≤ 2) (s : List Char) :
    (∃ j, j + k ≤ 2 ∧ s = List.replicate j '"' ∧ longBasicChars k s = List.replicate j '"') ∨
      ∃ j c u, j + k ≤ 2 ∧ c ≠ '"' ∧ longBasicChars k s = List.replicate j '"' ++ c :: u := by
  induction s generalizing k with
  | nil => exact .inl ⟨0, by omega, rfl, rfl⟩
  | cons c s ih =>
    by_cases hquote : c = '"'
    · subst hquote
      by_cases hthird : k = 2
      · subst hthird
        exact .inr ⟨0, '\\', _, by omega, by decide, rfl⟩
      · have hnext : longBasicChars k ('"' :: s) = '"' :: longBasicChars (k + 1) s := by
          simp [longBasicChars, hthird]
        rw [hnext]
        obtain ⟨j, hj, hs, htext⟩ | ⟨j, c, u, hj, hc, htext⟩ := ih (by omega : k + 1 ≤ 2)
        · exact .inl ⟨j + 1, by omega, by rw [hs]; rfl, by rw [htext]; rfl⟩
        · exact .inr ⟨j + 1, c, u, by omega, hc, by rw [htext]; rfl⟩
    · right
      by_cases hline : c = '\n'
      · subst hline
        exact ⟨0, '\n', _, by omega, by decide, rfl⟩
      · have hnext : longBasicChars k (c :: s) = basicChar c ++ longBasicChars 0 s := by
          simp [longBasicChars, hquote, hline]
        rw [hnext]
        obtain ⟨hchar, -⟩ | ⟨u, hchar, -⟩ := basicChar_cases c
        · exact ⟨0, c, _, by omega, hquote, by rw [hchar]; rfl⟩
        · exact ⟨0, '\\', _, by omega, by decide, by rw [hchar]; rfl⟩

theorem length_le_longBasicChars (k : Nat) (s : List Char) : s.length ≤ (longBasicChars k s).length := by
  induction s generalizing k with
  | nil => exact le_rfl
  | cons c s ih =>
    have hpos := List.length_pos_iff.mpr (basicChar_ne_nil c)
    have hnext := ih 0
    have hmark := ih (k + 1)
    rw [longBasicChars]
    split_ifs
    · simp only [List.length_cons]
      omega
    · simp only [List.length_cons]
      omega
    · simp only [List.length_cons]
      omega
    · simp only [List.length_append, List.length_cons]
      omega

theorem exists_first_longBasicChars {s : List Char} (h : '\n' ∉ s) (t : List Char) :
    ∃ c u, isShown c = true ∧ longBasicChars 0 s ++ '"' :: t = c :: u := by
  cases s with
  | nil => exact ⟨'"', t, by decide, rfl⟩
  | cons c s =>
    obtain ⟨hline, -⟩ := not_or.mp (mt List.mem_cons.mpr h)
    by_cases hquote : c = '"'
    · subst hquote
      exact ⟨'"', _, by decide, rfl⟩
    · have hnext : longBasicChars 0 (c :: s) = basicChar c ++ longBasicChars 0 s := by
        simp [longBasicChars, hquote, Ne.symm hline]
      rw [hnext]
      obtain ⟨hchar, -, -, hshown⟩ | ⟨u, hchar, -⟩ := basicChar_cases c
      · exact ⟨c, _, hshown, by rw [hchar]; rfl⟩
      · exact ⟨'\\', _, by decide, by rw [hchar]; rfl⟩

theorem lineEnd?_shown {c : Char} (h : isShown c = true) (s : List Char) : lineEnd? (c :: s) = none := by
  unfold lineEnd?
  split
  case h_1 heq =>
    obtain rfl := (List.cons.inj heq).1
    exact absurd h (by decide)
  case h_2 heq =>
    obtain rfl := (List.cons.inj heq).1
    exact absurd h (by decide)
  case h_3 => rfl

theorem longBasicRest?_closing {s t extra : List Char} (h : closing? '"' s = some (extra, t)) (fuel : Nat)
    (done : List Char) : longBasicRest? (fuel + 1) done s = some (done.reverse ++ extra, t) := by
  cases s with
  | nil => cases h
  | cons c s => rw [longBasicRest?, h]

section step

variable {c : Char} {s t : List Char} (hopen : closing? '"' s = none)

include hopen

theorem longBasicRest?_shown (hs : s = c :: t) (hshown : isShown c = true) (hslash : c ≠ '\\') (fuel : Nat)
    (done : List Char) : longBasicRest? (fuel + 1) done s = longBasicRest? fuel (c :: done) t := by
  subst hs
  rw [longBasicRest?, hopen]
  dsimp only
  rw [if_neg (by simpa using hslash), lineEnd?_shown hshown, if_pos hshown]

theorem longBasicRest?_line (hs : s = '\n' :: t) (fuel : Nat) (done : List Char) :
    longBasicRest? (fuel + 1) done s = longBasicRest? fuel ('\n' :: done) t := by
  subst hs
  rw [longBasicRest?, hopen]
  rfl

theorem longBasicRest?_escaped {u : List Char} (hs : s = '\\' :: u) (hescape : escape? u = some (c, t))
    (fuel : Nat) (done : List Char) : longBasicRest? (fuel + 1) done s = longBasicRest? fuel (c :: done) t := by
  subst hs
  rw [longBasicRest?, hopen]
  dsimp only
  rw [if_pos (by rfl), hescape]

end step

theorem longBasicRest?_text (s : List Char) {rest : List Char} (hrest : rest.head? ≠ some '"') {k : Nat}
    (hk : k ≤ 2) {fuel : Nat} (h : s.length < fuel) (done : List Char) :
    longBasicRest? fuel done (longBasicChars k s ++ '"' :: '"' :: '"' :: rest) =
      some (done.reverse ++ s, rest) := by
  -- One character of the text takes one step of the reader; the marks at its end are taken with the
  -- closing ones.
  induction s generalizing k fuel done with
  | nil =>
    obtain ⟨fuel, rfl⟩ := Nat.exists_eq_succ_of_ne_zero (by omega : fuel ≠ 0)
    exact longBasicRest?_closing (closing?_marks (j := 0) (by omega) hrest) fuel done
  | cons c s ih =>
    obtain ⟨fuel, rfl⟩ := Nat.exists_eq_succ_of_ne_zero (by omega : fuel ≠ 0)
    have hfuel : s.length < fuel := by simpa using h
    have hread : ∀ {k : Nat}, k ≤ 2 → longBasicRest? fuel (c :: done)
        (longBasicChars k s ++ '"' :: '"' :: '"' :: rest) = some (done.reverse ++ c :: s, rest) := by
      intro k hk
      rw [ih hk hfuel]
      simp
    obtain ⟨j, hj, hs, htext⟩ | ⟨j, d, u, hj, hd, htext⟩ := longBasicChars_cases hk (c :: s)
    · rw [htext, hs]
      exact longBasicRest?_closing (closing?_marks (by omega) hrest) fuel done
    · have hopen : closing? '"' (longBasicChars k (c :: s) ++ '"' :: '"' :: '"' :: rest) = none := by
        rw [htext, List.append_assoc]
        exact closing?_before (by omega) hd _
      by_cases hquote : c = '"'
      · subst hquote
        by_cases hthird : k = 2
        · subst hthird
          exact (longBasicRest?_escaped hopen rfl rfl fuel done).trans (hread (by omega))
        · have hnext : longBasicChars k ('"' :: s) = '"' :: longBasicChars (k + 1) s := by
            simp [longBasicChars, hthird]
          rw [hnext] at hopen ⊢
          exact (longBasicRest?_shown hopen rfl (by decide) (by decide) fuel done).trans (hread (by omega))
      · by_cases hline : c = '\n'
        · subst hline
          exact (longBasicRest?_line hopen rfl fuel done).trans (hread (by omega))
        · have hnext : longBasicChars k (c :: s) = basicChar c ++ longBasicChars 0 s := by
            simp [longBasicChars, hquote, hline]
          rw [hnext, List.append_assoc] at hopen ⊢
          obtain ⟨hchar, -, hslash, hshown⟩ | ⟨u, hchar, hescape⟩ := basicChar_cases c
          · rw [hchar] at hopen ⊢
            exact (longBasicRest?_shown hopen rfl hshown hslash fuel done).trans (hread (by omega))
          · rw [hchar] at hopen ⊢
            exact (longBasicRest?_escaped hopen rfl (hescape _) fuel done).trans (hread (by omega))

/-! ## Texts with short runs of marks -/

theorem le_longestRun (c : Char) (run longest : Nat) (s : List Char) : longest ≤ longestRun c run longest s := by
  induction s generalizing run longest with
  | nil => exact le_rfl
  | cons d s ih => exact (le_max_right _ _).trans (ih _ _)

/-- The runs of a mark in a text are short, also after `k` marks. -/
def ShortRuns (quote : Char) (k : Nat) (s : List Char) : Prop := ∃ l, longestRun quote k l s ≤ 2

theorem ShortRuns.mark {quote : Char} {k : Nat} {s : List Char} (h : ShortRuns quote k (quote :: s)) :
    k + 1 ≤ 2 ∧ ShortRuns quote (k + 1) s := by
  obtain ⟨l, hl⟩ := h
  rw [longestRun, beq_self_eq_true, if_pos rfl] at hl
  exact ⟨(le_max_left _ _).trans ((le_longestRun _ _ _ _).trans hl), _, hl⟩

theorem ShortRuns.other {quote c : Char} (hc : c ≠ quote) {k : Nat} {s : List Char}
    (h : ShortRuns quote k (c :: s)) : ShortRuns quote 0 s := by
  obtain ⟨l, hl⟩ := h
  rw [longestRun, if_neg (by simpa using hc)] at hl
  exact ⟨_, hl⟩

theorem marks_cases {quote : Char} {k : Nat} (hk : k ≤ 2) {s : List Char} (h : ShortRuns quote k s) :
    (∃ j, j + k ≤ 2 ∧ s = List.replicate j quote) ∨
      ∃ j c u, j + k ≤ 2 ∧ c ≠ quote ∧ s = List.replicate j quote ++ c :: u := by
  induction s generalizing k with
  | nil => exact .inl ⟨0, by omega, rfl⟩
  | cons c s ih =>
    by_cases hquote : c = quote
    · subst hquote
      obtain ⟨hle, hrest⟩ := h.mark
      obtain ⟨j, hj, hs⟩ | ⟨j, d, u, hj, hd, hs⟩ := ih hle hrest
      · exact .inl ⟨j + 1, by omega, by rw [hs]; rfl⟩
      · exact .inr ⟨j + 1, d, u, by omega, hd, by rw [hs]; rfl⟩
    · exact .inr ⟨0, c, s, by omega, hquote, rfl⟩

theorem notMem_of_runOf {quote : Char} {s : List Char} (h : runOf quote s = 0) : quote ∉ s := by
  have hrun : ∀ (t : List Char) (run longest : Nat), longestRun quote run longest t = 0 → quote ∉ t := by
    intro t
    induction t with
    | nil => exact fun _ _ _ => List.not_mem_nil
    | cons c t ih =>
      intro run longest hzero hmem
      rw [longestRun] at hzero
      rcases List.mem_cons.mp hmem with rfl | hmem
      · rw [beq_self_eq_true, if_pos rfl] at hzero
        have hle := le_longestRun quote (run + 1) (max (run + 1) longest) t
        omega
      · exact ih _ _ hzero hmem
  exact hrun s 0 0 h

theorem longLiteralRest?_closing {s t extra : List Char} (h : closing? '\'' s = some (extra, t)) (fuel : Nat)
    (done : List Char) : longLiteralRest? (fuel + 1) done s = some (done.reverse ++ extra, t) := by
  cases s with
  | nil => cases h
  | cons c s => rw [longLiteralRest?, h]

theorem longLiteralRest?_next {c : Char} {s : List Char} (hopen : closing? '\'' (c :: s) = none)
    (hc : isShown c = true ∨ c = '\n') (fuel : Nat) (done : List Char) :
    longLiteralRest? (fuel + 1) done (c :: s) = longLiteralRest? fuel (c :: done) s := by
  rw [longLiteralRest?, hopen]
  rcases hc with hshown | rfl
  · dsimp only
    rw [lineEnd?_shown hshown, if_pos hshown]
  · rfl

theorem longLiteralRest?_text {s : List Char} (hs : ∀ c ∈ s, isShown c = true ∨ c = '\n') {rest : List Char}
    (hrest : rest.head? ≠ some '\'') {k : Nat} (hk : k ≤ 2) (hruns : ShortRuns '\'' k s) {fuel : Nat}
    (h : s.length < fuel) (done : List Char) :
    longLiteralRest? fuel done (s ++ '\'' :: '\'' :: '\'' :: rest) = some (done.reverse ++ s, rest) := by
  induction s generalizing k fuel done with
  | nil =>
    obtain ⟨fuel, rfl⟩ := Nat.exists_eq_succ_of_ne_zero (by omega : fuel ≠ 0)
    exact longLiteralRest?_closing (closing?_marks (j := 0) (by omega) hrest) fuel done
  | cons c s ih =>
    obtain ⟨fuel, rfl⟩ := Nat.exists_eq_succ_of_ne_zero (by omega : fuel ≠ 0)
    obtain ⟨hc, hs⟩ := List.forall_mem_cons.mp hs
    have hfuel : s.length < fuel := by simpa using h
    obtain ⟨j, hj, heq⟩ | ⟨j, d, u, hj, hd, heq⟩ := marks_cases hk hruns
    · rw [heq]
      exact longLiteralRest?_closing (closing?_marks (by omega) hrest) fuel done
    · have hopen : closing? '\'' (c :: s ++ '\'' :: '\'' :: '\'' :: rest) = none := by
        rw [heq, List.append_assoc]
        exact closing?_before (by omega) hd _
      obtain ⟨k', hk', hruns'⟩ : ∃ k' ≤ 2, ShortRuns '\'' k' s := by
        by_cases hquote : c = '\''
        · subst hquote
          exact ⟨_, hruns.mark⟩
        · exact ⟨0, by omega, hruns.other hquote⟩
      refine (longLiteralRest?_next hopen hc fuel done).trans ?_
      refine (ih hs hk' hruns' hfuel (c :: done)).trans ?_
      simp

/-! ## The four notations -/

theorem textRest?_basic {t : List Char} (h : ∀ u, t ≠ '"' :: '"' :: u) :
    textRest? ('"' :: t) = basicRest? (t.length + 2) [] t := by
  rw [textRest?]
  · rfl
  · exact fun u hu => h u hu

theorem textRest?_literal {t : List Char} (h : ∀ u, t ≠ '\'' :: '\'' :: u) :
    textRest? ('\'' :: t) = literalRest? t := by
  rw [textRest?]
  exact fun u hu => h u hu

/-- A line end is put before a text with line ends, and the reader takes it off. -/
theorem withoutFirstLineEnd_broken {broken : Bool} {t : List Char} (h : broken = false → lineEnd? t = none) :
    withoutFirstLineEnd ((if broken then ['\n'] else []) ++ t) = t := by
  cases broken with
  | true => rfl
  | false => rw [if_neg Bool.false_ne_true, List.nil_append, withoutFirstLineEnd, h rfl, Option.getD_none]

theorem exists_first_textChars (s : List Char) : ∃ t, textChars s = '"' :: t ∨ textChars s = '\'' :: t := by
  unfold textChars
  dsimp only
  split_ifs
  · exact ⟨_, .inl rfl⟩
  · exact ⟨_, .inr rfl⟩
  · exact ⟨_, .inl rfl⟩
  · exact ⟨_, .inr rfl⟩
  · exact ⟨_, .inl rfl⟩
  · exact ⟨_, .inl rfl⟩

section notations

variable {s rest : List Char} (hdouble : rest.head? ≠ some '"') (hsingle : rest.head? ≠ some '\'')

include hdouble in
theorem read_basic : textRest? ('"' :: s.flatMap basicChar ++ ['"'] ++ rest) = some (s, rest) := by
  have hshape : ∀ u, s.flatMap basicChar ++ '"' :: rest ≠ '"' :: '"' :: u := by
    intro u hu
    cases s with
    | nil =>
      have hrest : rest = '"' :: u := (List.cons.inj hu).2
      exact hdouble (by rw [hrest]; rfl)
    | cons c s =>
      rw [List.flatMap_cons] at hu
      obtain ⟨hchar, hquote, -⟩ | ⟨v, hchar, -⟩ := basicChar_cases c
      · rw [hchar] at hu
        exact hquote (List.cons.inj hu).1
      · rw [hchar] at hu
        exact absurd (List.cons.inj hu).1 (by decide)
  have hlength := length_le_flatMap_basicChar s
  rw [List.append_assoc, List.cons_append]
  refine (textRest?_basic hshape).trans (basicRest?_text s ?_ [] rest)
  rw [List.length_append]
  omega

include hsingle in
theorem read_literal (h : ∀ c ∈ s, isShown c = true ∧ c ≠ '\'') :
    textRest? ('\'' :: s ++ ['\''] ++ rest) = some (s, rest) := by
  have hshape : ∀ u, s ++ '\'' :: rest ≠ '\'' :: '\'' :: u := by
    intro u hu
    cases s with
    | nil =>
      have hrest : rest = '\'' :: u := (List.cons.inj hu).2
      exact hsingle (by rw [hrest]; rfl)
    | cons c s => exact (h c List.mem_cons_self).2 (List.cons.inj hu).1
  rw [List.append_assoc, List.cons_append]
  exact (textRest?_literal hshape).trans (literalRest?_text h rest)

include hdouble in
theorem read_longBasic :
    textRest? (longText ['"', '"', '"'] (longBasicChars 0 s) (s.contains '\n') ++ rest) = some (s, rest) := by
  have hfirst : s.contains '\n' = false → lineEnd? (longBasicChars 0 s ++ '"' :: '"' :: '"' :: rest) = none := by
    intro hline
    obtain ⟨c, u, hc, htext⟩ := exists_first_longBasicChars (by simpa using hline) ('"' :: '"' :: rest)
    rw [htext]
    exact lineEnd?_shown hc u
  have hlength := length_le_longBasicChars 0 s
  have htext : longText ['"', '"', '"'] (longBasicChars 0 s) (s.contains '\n') ++ rest =
      '"' :: '"' :: '"' :: ((if s.contains '\n' then ['\n'] else []) ++
        (longBasicChars 0 s ++ '"' :: '"' :: '"' :: rest)) := by
    simp [longText]
  rw [htext, textRest?]
  rw [withoutFirstLineEnd_broken hfirst]
  refine longBasicRest?_text s hdouble (by decide) ?_ []
  simp only [List.length_cons, List.length_append]
  omega

include hsingle in
theorem read_longLiteral (h : ∀ c ∈ s, isShown c = true ∨ c = '\n') (hruns : runOf '\'' s ≤ 2) :
    textRest? (longText ['\'', '\'', '\''] s (s.contains '\n') ++ rest) = some (s, rest) := by
  have hfirst : s.contains '\n' = false → lineEnd? (s ++ '\'' :: '\'' :: '\'' :: rest) = none := by
    intro hline
    cases s with
    | nil => rfl
    | cons c s =>
      have hc : c ≠ '\n' := by
        rintro rfl
        simp at hline
      exact lineEnd?_shown ((h c List.mem_cons_self).resolve_right hc) _
  have htext : longText ['\'', '\'', '\''] s (s.contains '\n') ++ rest =
      '\'' :: '\'' :: '\'' :: ((if s.contains '\n' then ['\n'] else []) ++
        (s ++ '\'' :: '\'' :: '\'' :: rest)) := by
    simp [longText]
  rw [htext, textRest?]
  rw [withoutFirstLineEnd_broken hfirst]
  refine longLiteralRest?_text h hsingle (by decide) ⟨0, hruns⟩ ?_ []
  simp only [List.length_cons, List.length_append]
  omega

include hdouble hsingle

/-- A text is read back from its notation, with what follows it left over. -/
theorem textRest?_textChars (s : List Char) : textRest? (textChars s ++ rest) = some (s, rest) := by
  have hplain : s.any isControl = false → ∀ c ∈ s, isShown c = true ∨ c = '\n' := by
    intro hcontrols c hc
    have hcontrol : isControl c = false := by
      have hnone := List.any_eq_false.mp hcontrols c hc
      simpa using hnone
    by_cases hline : c = '\n'
    · exact .inr hline
    · exact .inl (isShown_of_not_isControl hcontrol hline)
  unfold textChars
  dsimp only
  split_ifs with hbasic hliteral hmarks hsingles hbroken
  · exact read_basic hdouble
  · simp only [Bool.and_eq_true, Bool.not_eq_true', beq_iff_eq] at hliteral
    obtain ⟨⟨hcontrols, hnone⟩, hline⟩ := hliteral
    refine read_literal hsingle fun c hc => ⟨(hplain hcontrols c hc).resolve_right ?_, ?_⟩
    · rintro rfl
      exact absurd hc (by simpa using hline)
    · rintro rfl
      exact notMem_of_runOf hnone hc
  · exact read_longBasic hdouble
  · simp only [Bool.and_eq_true, Bool.not_eq_true', decide_eq_true_eq] at hsingles
    exact read_longLiteral hsingle (hplain hsingles.1) hsingles.2
  · exact read_longBasic hdouble
  · exact read_basic hdouble

end notations

end PlainSteps.Toml
