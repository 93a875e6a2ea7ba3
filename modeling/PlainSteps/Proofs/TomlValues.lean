import PlainSteps.Proofs.TomlNumbers
import PlainSteps.Proofs.TomlStrings

/-!
# Values of TOML are read as they are written

`Toml.valueRest?_plain`: a string, a number, a truth value or a list of these is read back from its text,
with what follows it left over, if that begins as the text after a value does (`Ends`).

* `IsWord` : a number or a word, as a run of characters that the reader takes as a whole.
* `itemsRest?_items` : the items of a list, each on a line of its own (`itemLine`).
-/

namespace PlainSteps.Toml

open Text Number

/-- A value without parts. NaN is none, since its text does not tell its bits. -/
def IsScalar : Toml → Prop
  | string _ | integer _ | boolean _ => True
  | float x => x.isNaN = false
  | moment _ | array _ | table _ => False

/-- A value that is written within one table: a scalar, or a list of them. -/
def IsPlain : Toml → Prop
  | array items => ∀ v ∈ items, v.IsScalar
  | v => v.IsScalar

@[simp] theorem isPlain_string (s : String) : (string s).IsPlain := trivial

@[simp] theorem isPlain_boolean (b : Bool) : (boolean b).IsPlain := trivial

@[simp] theorem isPlain_nat (n : Nat) : (nat n).IsPlain := trivial

@[simp] theorem isPlain_float (x : Binary64) : (float x).IsPlain ↔ x.isNaN = false := Iff.rfl

@[simp] theorem isPlain_strings (ss : List String) : (strings ss).IsPlain := by
  intro v hv
  obtain ⟨s, -, rfl⟩ := List.mem_map.mp hv
  trivial

theorem IsPlain.scalar_or_list {v : Toml} (h : v.IsPlain) :
    v.IsScalar ∨ ∃ items, v = .array items ∧ ∀ w ∈ items, w.IsScalar := by
  cases v with
  | array items => exact .inr ⟨items, rfl, h⟩
  | _ => exact .inl h

/-- How the text after a value begins: with a comma, a bracket or a line end. -/
def Ends (s : List Char) : Prop := ∃ c t, s = c :: t ∧ c ∈ [',', ']', '\n']

/-! ## Words -/

/-- A word that is read as a value. -/
structure IsWord (w : List Char) (v : Toml) : Prop where
  scalar : ∀ c ∈ w, isScalar c = true
  ne_nil : w ≠ []
  /-- It is not taken for a date. -/
  moment : ∀ rest, Ends rest → beginsMoment (w ++ rest) = false
  read : scalar? w = some v

theorem Ends.not_scalar {s : List Char} (h : Ends s) : ∀ c ∈ s.head?, isScalar c = false := by
  obtain ⟨c, t, rfl, hc⟩ := h
  have hall : ∀ c ∈ [',', ']', '\n'], isScalar c = false := List.all_iff_forall_prop.mp (by decide)
  simpa using hall c hc

theorem takeWhile_word {w s : List Char} (hw : ∀ c ∈ w, isScalar c = true) (hs : Ends s) :
    (w ++ s).takeWhile isScalar = w := by
  obtain ⟨c, t, rfl, hc⟩ := id hs
  have hstop : isScalar c = false := hs.not_scalar c rfl
  rw [List.takeWhile_append_of_pos hw, List.takeWhile_cons_of_neg (by simp [hstop]), List.append_nil]

theorem valueRest?_word {w : List Char} {v : Toml} (hw : IsWord w v) {rest : List Char} (hrest : Ends rest)
    (fuel depth : Nat) : valueRest? (fuel + 1) depth (w ++ rest) = some (v, rest) := by
  have htake := takeWhile_word hw.scalar hrest
  have hmoment := hw.moment rest hrest
  have hread := hw.read
  have hfirst : ∀ c ∈ ['"', '\'', '[', '\x7b'], ∀ t, w ++ rest ≠ c :: t := by
    intro c hc t ht
    obtain ⟨d, u, rfl⟩ := List.exists_cons_of_ne_nil hw.ne_nil
    have hnone : ∀ c ∈ ['"', '\'', '[', '\x7b'], ¬isScalar c = true :=
      List.all_iff_forall_prop.mp (by decide)
    obtain rfl := (List.cons.inj ht).1
    exact hnone _ hc (hw.scalar _ List.mem_cons_self)
  rw [valueRest?]
  · rw [if_neg (by rw [hmoment]; exact Bool.false_ne_true)]
    dsimp only
    rw [htake, hread, List.drop_left]
    rfl
  · intro hnil
    exact hw.ne_nil (List.append_eq_nil_iff.mp hnil).1
  · exact fun t ht => hfirst '"' (by decide) t ht
  · exact fun t ht => hfirst '\'' (by decide) t ht
  · exact fun t ht => hfirst '[' (by decide) t ht
  · exact fun t ht => hfirst '\x7b' (by decide) t ht

theorem beginsMoment_digits {digits : List Char} (hdigits : ∀ c ∈ digits, isAsciiDigit c = true) {c : Char}
    (hc : isAsciiDigit c = false ∧ c ≠ '-' ∧ c ≠ ':') (t : List Char) : beginsMoment (digits ++ c :: t) = false := by
  obtain ⟨hdigit, hdash, hcolon⟩ := hc
  have hrun : (digits ++ c :: t).takeWhile isAsciiDigit = digits := by
    rw [List.takeWhile_append_of_pos hdigits, List.takeWhile_cons_of_neg (by simp [hdigit]), List.append_nil]
  unfold beginsMoment
  dsimp only
  rw [hrun, List.drop_left, List.head?_cons]
  simp [hdash, hcolon]

theorem beginsMoment_of_head {c : Char} (hc : isAsciiDigit c = false) (t : List Char) :
    beginsMoment (c :: t) = false := by
  unfold beginsMoment
  dsimp only
  rw [List.takeWhile_cons_of_neg (by simp [hc])]
  rfl

theorem Ends.no_moment {s : List Char} (h : Ends s) {digits : List Char}
    (hdigits : ∀ c ∈ digits, isAsciiDigit c = true) : beginsMoment (digits ++ s) = false := by
  obtain ⟨c, t, rfl, hc⟩ := h
  have hall : ∀ c ∈ [',', ']', '\n'], isAsciiDigit c = false ∧ c ≠ '-' ∧ c ≠ ':' :=
    List.all_iff_forall_prop.mp (by decide)
  exact beginsMoment_digits hdigits (hall c hc) t

theorem isScalar_digit {c : Char} (h : isAsciiDigit c = true) : isScalar c = true := by
  rw [isScalar, isAsciiAlphanumeric, h]
  simp

theorem isScalar_of_mem_signText {negative : Bool} {c : Char} (h : c ∈ signText negative) :
    isScalar c = true := by
  cases negative with
  | true =>
    obtain rfl := List.mem_singleton.mp h
    rfl
  | false => cases h

theorem isWord_boolean (b : Bool) : IsWord (if b then "true" else "false").toList (boolean b) := by
  cases b with
  | true =>
    exact ⟨List.all_iff_forall_prop.mp (by decide), by decide, fun _ _ => beginsMoment_of_head (by decide) _,
      by rfl⟩
  | false =>
    exact ⟨List.all_iff_forall_prop.mp (by decide), by decide, fun _ _ => beginsMoment_of_head (by decide) _,
      by rfl⟩

theorem isWord_integer {n : Int} (h : isInteger n = true) : IsWord (toString n).toList (integer n) := by
  obtain ⟨negative, k, htext, -⟩ := integerText_spec n
  have hdigits : ∀ c ∈ Nat.toDigits 10 k, isAsciiDigit c = true := fun c hc =>
    isAsciiDigit_of_mem_toDigits hc
  refine ⟨fun c hc => ?_, ?_, fun rest hrest => ?_, scalar?_integer h⟩
  · rw [htext] at hc
    rcases List.mem_append.mp hc with hc | hc
    · exact isScalar_of_mem_signText hc
    · exact isScalar_digit (hdigits c hc)
  · rw [htext]
    simp [Nat.toDigits_ne_nil]
  · rw [htext]
    cases negative with
    | true => exact beginsMoment_of_head (by decide) _
    | false => exact hrest.no_moment hdigits

theorem isWord_float {x : Binary64} (h : x.isNaN = false) : IsWord (floatText x).toList (float x) := by
  cases hx : x.parts? with
  | some p =>
    obtain ⟨whole, fraction, htext, hpositional, -, -⟩ := floatText_spec hx
    have hwhole : ∀ c ∈ whole, isAsciiDigit c = true := fun c hc =>
      hpositional.digits c (List.mem_append_left _ hc)
    refine ⟨fun c hc => ?_, ?_, fun rest _ => ?_, scalar?_float h⟩
    · rw [htext] at hc
      rcases List.mem_append.mp hc with hc | hc
      · exact isScalar_of_mem_signText hc
      rcases List.mem_append.mp hc with hc | hc
      · exact isScalar_digit (hwhole c hc)
      rcases List.mem_cons.mp hc with rfl | hc
      · rfl
      · exact isScalar_digit (hpositional.digits c (List.mem_append_right _ hc))
    · rw [htext]
      simp
    · rw [htext]
      cases p.negative with
      | true => exact beginsMoment_of_head (by decide) _
      | false =>
        have hshape : signText false ++ (whole ++ '.' :: fraction) ++ rest = whole ++ '.' :: (fraction ++ rest) := by
          simp [signText]
        rw [hshape]
        exact beginsMoment_digits hwhole (by decide) _
  | none =>
    have hread := scalar?_float h
    obtain rfl | rfl := infinite_of_parts? hx h
    · exact ⟨List.all_iff_forall_prop.mp (by decide +kernel), by decide +kernel,
        fun _ _ => beginsMoment_of_head (by decide) _, hread⟩
    · exact ⟨List.all_iff_forall_prop.mp (by decide +kernel), by decide +kernel,
        fun _ _ => beginsMoment_of_head (by decide) _, hread⟩

/-! ## Scalars -/

theorem valueRest?_string (s : String) {rest : List Char} (hrest : Ends rest) (fuel depth : Nat) :
    valueRest? (fuel + 1) depth ((textValue s).toList ++ rest) = some (string s, rest) := by
  obtain ⟨c, t, rfl, hc⟩ := hrest
  have hmark : ∀ c ∈ [',', ']', '\n'], c ≠ '"' ∧ c ≠ '\'' := List.all_iff_forall_prop.mp (by decide)
  have hread : textRest? (textChars s.toList ++ c :: t) = some (s.toList, c :: t) :=
    textRest?_textChars (by simpa using (hmark c hc).1) (by simpa using (hmark c hc).2) s.toList
  rw [textValue, String.toList_ofList]
  obtain ⟨u, hu | hu⟩ := exists_first_textChars s.toList
  · rw [hu, List.cons_append] at hread ⊢
    rw [valueRest?, hread, Option.map_some, String.ofList_toList]
  · rw [hu, List.cons_append] at hread ⊢
    rw [valueRest?, hread, Option.map_some, String.ofList_toList]

theorem valueRest?_scalar {v : Toml} (hv : v.IsScalar) {text : String} (h : valueText? v = some text)
    {rest : List Char} (hrest : Ends rest) (fuel depth : Nat) :
    valueRest? (fuel + 1) depth (text.toList ++ rest) = some (v, rest) := by
  cases v with
  | string s =>
    obtain rfl := Option.some.inj h
    exact valueRest?_string s hrest fuel depth
  | integer n =>
    rw [valueText?] at h
    split at h
    case isTrue hinteger =>
      obtain rfl := Option.some.inj h
      exact valueRest?_word (isWord_integer hinteger) hrest fuel depth
    case isFalse => cases h
  | float x =>
    obtain rfl := Option.some.inj h
    exact valueRest?_word (isWord_float hv) hrest fuel depth
  | boolean b =>
    obtain rfl := Option.some.inj h
    exact valueRest?_word (isWord_boolean b) hrest fuel depth
  | moment _ => exact absurd hv id
  | array _ => exact absurd hv id
  | table _ => exact absurd hv id

/-! ## Lists -/

/-- A text that begins with what a line is about. -/
def Solid (s : List Char) : Prop := ∃ c t, s = c :: t ∧ isGap c = false ∧ c ∉ ['#', '\n', '\r']

theorem Solid.append {s : List Char} (h : Solid s) (t : List Char) : Solid (s ++ t) := by
  obtain ⟨c, u, rfl, hc⟩ := h
  exact ⟨c, u ++ t, rfl, hc⟩

theorem skipComment_solid {s : List Char} (h : Solid s) : skipComment (skipGap s) = s := by
  obtain ⟨c, t, rfl, hgap, hc⟩ := h
  rw [skipGap, List.dropWhile_cons_of_neg (by simp [hgap]), skipComment]
  exact fun u hu => hc (by simp [(List.cons.inj hu).1])

theorem lineEnd?_solid {s : List Char} (h : Solid s) : lineEnd? s = none := by
  obtain ⟨c, t, rfl, -, hc⟩ := h
  unfold lineEnd?
  split
  case h_1 heq => exact absurd (by simp [(List.cons.inj heq).1]) hc
  case h_2 heq => exact absurd (by simp [(List.cons.inj heq).1]) hc
  case h_3 => rfl

theorem skipLines_solid {s : List Char} (h : Solid s) (fuel : Nat) : skipLines fuel s = s := by
  cases fuel with
  | zero => rfl
  | succ fuel =>
    rw [skipLines, skipComment_solid h, lineEnd?_solid h]

theorem skipLines_line {s : List Char} (h : Solid s) (fuel : Nat) :
    skipLines (fuel + 1) ('\n' :: s) = s := by
  rw [skipLines]
  exact skipLines_solid h fuel

theorem skipLines_indented {s : List Char} (h : Solid s) (fuel k : Nat) :
    skipLines (fuel + 2) ('\n' :: (List.replicate k ' ' ++ s)) = s := by
  have hgap : skipGap (List.replicate k ' ' ++ s) = skipGap s := by
    have hblank : ∀ c ∈ List.replicate k ' ', isGap c = true := by
      intro c hc
      rw [List.eq_of_mem_replicate hc]
      rfl
    rw [skipGap, List.dropWhile_append_of_pos hblank]
    rfl
  have hline : skipLines (fuel + 2) ('\n' :: (List.replicate k ' ' ++ s)) =
      skipLines (fuel + 1) (List.replicate k ' ' ++ s) := by
    rfl
  rw [hline, skipLines, hgap, skipComment_solid h, lineEnd?_solid h]

theorem IsWord.first {w : List Char} {v : Toml} (h : IsWord w v) :
    ∃ c t, w = c :: t ∧ c ∉ [' ', '\t', '#', '\n', '\r', ']'] := by
  obtain ⟨c, t, rfl⟩ := List.exists_cons_of_ne_nil h.ne_nil
  have hnone : ∀ c ∈ [' ', '\t', '#', '\n', '\r', ']'], ¬isScalar c = true :=
    List.all_iff_forall_prop.mp (by decide)
  exact ⟨c, t, rfl, fun hc => hnone c hc (h.scalar c List.mem_cons_self)⟩

theorem first_scalar {v : Toml} (hv : v.IsScalar) {text : String} (h : valueText? v = some text) :
    ∃ c t, text.toList = c :: t ∧ c ∉ [' ', '\t', '#', '\n', '\r', ']'] := by
  cases v with
  | string s =>
    obtain rfl := Option.some.inj h
    rw [textValue, String.toList_ofList]
    obtain ⟨t, ht | ht⟩ := exists_first_textChars s.toList
    · exact ⟨'"', t, ht, by decide⟩
    · exact ⟨'\'', t, ht, by decide⟩
  | integer n =>
    rw [valueText?] at h
    split at h
    case isTrue hinteger =>
      obtain rfl := Option.some.inj h
      exact (isWord_integer hinteger).first
    case isFalse => cases h
  | float x =>
    obtain rfl := Option.some.inj h
    exact (isWord_float hv).first
  | boolean b =>
    obtain rfl := Option.some.inj h
    exact (isWord_boolean b).first
  | moment _ => exact absurd hv id
  | array _ => exact absurd hv id
  | table _ => exact absurd hv id

theorem solid_of_first {s : List Char} (h : ∃ c t, s = c :: t ∧ c ∉ [' ', '\t', '#', '\n', '\r', ']']) :
    Solid s := by
  obtain ⟨c, t, rfl, hc⟩ := h
  simp only [List.mem_cons, List.not_mem_nil, or_false, not_or] at hc
  refine ⟨c, t, rfl, ?_, ?_⟩
  · simp [isGap, hc.1, hc.2.1]
  · simp [hc.2.2.1, hc.2.2.2.1, hc.2.2.2.2.1]

/-- An item of a list on its line. -/
def itemLine (text : String) : List Char := '\n' :: (List.replicate 4 ' ' ++ (text.toList ++ [',']))

theorem itemTexts?_cons {v : Toml} {vs : List Toml} {texts : List String}
    (h : itemTexts? (v :: vs) = some texts) :
    ∃ text rest, texts = text :: rest ∧ valueText? v = some text ∧ itemTexts? vs = some rest := by
  rw [itemTexts?] at h
  cases htext : valueText? v with
  | none => simp [htext] at h
  | some text =>
    cases hrest : itemTexts? vs with
    | none => simp [htext, hrest] at h
    | some rest =>
      rw [htext, hrest] at h
      exact ⟨text, rest, (Option.some.inj h).symm, rfl, rfl⟩

theorem itemsRest?_value {fuel depth : Nat} {s t u : List Char} {v : Toml} (hs : skipLines fuel s = t)
    (hfirst : ∀ r, t ≠ ']' :: r) (hread : valueRest? fuel depth t = some (v, u)) :
    itemsRest? (fuel + 1) depth s =
      match skipLines fuel u with
      | ']' :: u => some ([v], u)
      | ',' :: u => (itemsRest? fuel depth u).map fun r => (v :: r.1, r.2)
      | _ => none := by
  rw [itemsRest?, hs]
  split
  case h_1 r => exact absurd rfl (hfirst r)
  case h_2 =>
    rewrite [hread]
    rfl

theorem itemsRest?_items {items : List Toml} (hitems : ∀ v ∈ items, v.IsScalar) {texts : List String}
    (h : itemTexts? items = some texts) (rest : List Char) {fuel : Nat} (hfuel : items.length + 2 ≤ fuel)
    (depth : Nat) :
    itemsRest? fuel depth (texts.flatMap itemLine ++ '\n' :: ']' :: rest) = some (items, rest) := by
  have hclosing : Solid (']' :: rest) := ⟨']', rest, rfl, by decide, by decide⟩
  induction items generalizing texts fuel with
  | nil =>
    obtain rfl := Option.some.inj h
    obtain ⟨fuel, rfl⟩ := Nat.exists_eq_add_of_le' (by omega : 2 ≤ fuel)
    rw [List.flatMap_nil, List.nil_append, itemsRest?, skipLines_line hclosing]
    rfl
  | cons v vs ih =>
    obtain ⟨text, texts, rfl, htext, htexts⟩ := itemTexts?_cons h
    obtain ⟨hv, hvs⟩ := List.forall_mem_cons.mp hitems
    rw [List.length_cons] at hfuel
    obtain ⟨fuel, rfl⟩ := Nat.exists_eq_add_of_le' (by omega : 3 ≤ fuel)
    have hfirst := first_scalar hv htext
    have hline : (text :: texts).flatMap itemLine ++ '\n' :: ']' :: rest =
        '\n' :: (List.replicate 4 ' ' ++
          (text.toList ++ ',' :: (texts.flatMap itemLine ++ '\n' :: ']' :: rest))) := by
      simp [itemLine]
    have hnext : ∀ r, text.toList ++ ',' :: (texts.flatMap itemLine ++ '\n' :: ']' :: rest) ≠ ']' :: r := by
      intro r hr
      obtain ⟨c, t, hct, hc⟩ := hfirst
      rw [hct] at hr
      exact hc (by simp [(List.cons.inj hr).1])
    have hcomma : Solid (',' :: (texts.flatMap itemLine ++ '\n' :: ']' :: rest)) :=
      ⟨_, _, rfl, by decide, by decide⟩
    have hends : Ends (',' :: (texts.flatMap itemLine ++ '\n' :: ']' :: rest)) := ⟨_, _, rfl, by decide⟩
    have hread := valueRest?_scalar hv htext hends (fuel + 1) depth
    have hrest := ih hvs htexts (by omega : vs.length + 2 ≤ fuel + 2)
    rw [hline, itemsRest?_value (skipLines_indented ((solid_of_first hfirst).append _) fuel 4) hnext hread,
      skipLines_solid hcomma]
    simp only [hrest, Option.map_some]

theorem lines_eq (texts : List String) :
    '\n' :: (texts.map fun v => "    " ++ v ++ ",\n").flatMap String.toList =
      texts.flatMap itemLine ++ ['\n'] := by
  induction texts with
  | nil => rfl
  | cons x xs ih =>
    have htext : ("    " ++ x ++ ",\n").toList = List.replicate 4 ' ' ++ (x.toList ++ [',', '\n']) := by
      rw [String.toList_append, String.toList_append, List.append_assoc]
      rfl
    rw [List.map_cons, List.flatMap_cons, htext, List.flatMap_cons, List.append_assoc (itemLine x), ← ih]
    simp [itemLine]

theorem toList_arrayText (x y : String) (rest : List String) :
    (arrayText (x :: y :: rest)).toList = '[' :: ((x :: y :: rest).flatMap itemLine ++ ['\n', ']']) := by
  have htext : arrayText (x :: y :: rest) =
      "[\n" ++ String.join ((x :: y :: rest).map fun v => "    " ++ v ++ ",\n") ++ "]" := by
    rfl
  have hlines := lines_eq (x :: y :: rest)
  have hopening : "[\n".toList = ['[', '\n'] := by rfl
  rw [htext, String.toList_append, String.toList_append, String.toList_join, hopening, List.cons_append,
    List.singleton_append, hlines]
  simp

theorem length_itemTexts? {items : List Toml} {texts : List String} (h : itemTexts? items = some texts) :
    texts.length = items.length := by
  induction items generalizing texts with
  | nil =>
    obtain rfl := Option.some.inj h
    rfl
  | cons v vs ih =>
    obtain ⟨text, texts, rfl, -, htexts⟩ := itemTexts?_cons h
    rw [List.length_cons, List.length_cons, ih htexts]

theorem length_le_itemLines (texts : List String) : texts.length ≤ (texts.flatMap itemLine).length := by
  induction texts with
  | nil => exact le_rfl
  | cons x xs ih =>
    rw [List.flatMap_cons, List.length_append, List.length_cons, itemLine, List.length_cons]
    omega

theorem valueRest?_list {s t : List Char} {items : List Toml} {fuel depth : Nat}
    (h : itemsRest? fuel depth s = some (items, t)) :
    valueRest? (fuel + 1) (depth + 1) ('[' :: s) = some (array items, t) := by
  rw [valueRest?]
  simp only [h, Option.map_some]

theorem itemsRest?_single {v : Toml} (hv : v.IsScalar) {text : String} (h : valueText? v = some text)
    (rest : List Char) (fuel depth : Nat) :
    itemsRest? (fuel + 2) depth (text.toList ++ ']' :: rest) = some ([v], rest) := by
  have hclosing : Solid (']' :: rest) := ⟨']', rest, rfl, by decide, by decide⟩
  have hfirst := first_scalar hv h
  have hnext : ∀ r, text.toList ++ ']' :: rest ≠ ']' :: r := by
    intro r hr
    obtain ⟨c, t, hct, hc⟩ := hfirst
    rw [hct] at hr
    exact hc (by simp [(List.cons.inj hr).1])
  have hread := valueRest?_scalar hv h (⟨_, _, rfl, by decide⟩ : Ends (']' :: rest)) fuel depth
  rw [itemsRest?_value (skipLines_solid ((solid_of_first hfirst).append _) _) hnext hread,
    skipLines_solid hclosing]
  rfl

/-- A list is read back in all its three forms: empty, on one line, and with a line for each item. -/
theorem valueRest?_array {items : List Toml} (hitems : ∀ v ∈ items, v.IsScalar) {texts : List String}
    (h : itemTexts? items = some texts) (rest : List Char) {fuel : Nat}
    (hfuel : ((arrayText texts).toList ++ rest).length ≤ fuel) (depth : Nat) :
    valueRest? (fuel + 1) (depth + 1) ((arrayText texts).toList ++ rest) = some (array items, rest) := by
  have hlength := length_itemTexts? h
  match texts with
  | [] =>
    obtain rfl := List.length_eq_zero_iff.mp hlength.symm
    have htext : (arrayText []).toList ++ rest = '[' :: ']' :: rest := by rfl
    rw [htext] at hfuel ⊢
    rw [List.length_cons] at hfuel
    obtain ⟨fuel, rfl⟩ := Nat.exists_eq_succ_of_ne_zero (by omega : fuel ≠ 0)
    refine valueRest?_list ?_
    rw [itemsRest?, skipLines_solid ⟨']', rest, rfl, by decide, by decide⟩]
    rfl
  | [x] =>
    obtain ⟨v, rfl⟩ := List.length_eq_one_iff.mp hlength.symm
    obtain ⟨y, ys, hxy, hv, -⟩ := itemTexts?_cons h
    obtain rfl := (List.cons.inj hxy).1
    have htext : (arrayText [x]).toList ++ rest = '[' :: (x.toList ++ ']' :: rest) := by
      have hopening : "[".toList = ['['] := by rfl
      rw [arrayText, String.toList_append, String.toList_append, hopening]
      simp
    rw [htext] at hfuel ⊢
    simp only [List.length_append, List.length_cons] at hfuel
    obtain ⟨fuel, rfl⟩ := Nat.exists_eq_add_of_le' (by omega : 2 ≤ fuel)
    exact valueRest?_list (itemsRest?_single (hitems v (List.mem_singleton_self v)) hv rest fuel depth)
  | x :: y :: texts =>
    have hcount := length_le_itemLines (x :: y :: texts)
    rw [toList_arrayText] at hfuel ⊢
    simp only [List.length_append, List.length_cons] at hfuel hcount hlength
    rw [List.cons_append, List.append_assoc]
    exact valueRest?_list (itemsRest?_items hitems h rest (by omega) depth)

theorem solid_plain {v : Toml} (hv : v.IsPlain) {text : String} (h : valueText? v = some text) :
    Solid text.toList := by
  obtain hscalar | ⟨items, rfl, -⟩ := hv.scalar_or_list
  · exact solid_of_first (first_scalar hscalar h)
  · rw [valueText?] at h
    obtain ⟨texts, -, rfl⟩ := Option.map_eq_some_iff.mp h
    match texts with
    | [] => exact ⟨'[', [']'], rfl, by decide, by decide⟩
    | [x] =>
      have hopening : "[".toList = ['['] := by rfl
      rw [arrayText, String.toList_append, String.toList_append, hopening]
      exact ⟨'[', _, rfl, by decide, by decide⟩
    | x :: y :: texts =>
      rw [toList_arrayText]
      exact ⟨'[', _, rfl, by decide, by decide⟩

/-- A value that a table holds on its line is read back. -/
theorem valueRest?_plain {v : Toml} (hv : v.IsPlain) {text : String} (h : valueText? v = some text)
    {rest : List Char} (hrest : Ends rest) {fuel : Nat} (hfuel : (text.toList ++ rest).length < fuel)
    (depth : Nat) : valueRest? fuel (depth + 1) (text.toList ++ rest) = some (v, rest) := by
  obtain ⟨fuel, rfl⟩ := Nat.exists_eq_succ_of_ne_zero (by omega : fuel ≠ 0)
  obtain hscalar | ⟨items, rfl, hitems⟩ := hv.scalar_or_list
  · exact valueRest?_scalar hscalar h hrest fuel _
  · rw [valueText?] at h
    obtain ⟨texts, htexts, rfl⟩ := Option.map_eq_some_iff.mp h
    exact valueRest?_array hitems htexts rest (by omega) depth

end PlainSteps.Toml
