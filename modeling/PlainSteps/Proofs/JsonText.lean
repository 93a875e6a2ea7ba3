import PlainSteps.Json.Reader
import PlainSteps.Json.Writer
import PlainSteps.Proofs.DecimalDigits

/-!
# JSON text is read as it is written

`Json.read?_pretty` and `Json.read?_compact`: the text of a value over several lines, and that on one line, is
read as that value, if all its numbers are whole and of 64 bits (`Exact`) and it does not nest too deep.

The two texts differ in the blanks alone, so there is one text for any `Spacing`, and what is said of reading is
said of that. A string is read character by character: each of its characters is written so that it is read back
(`stringRest?_stringChar`). The digits of a number are read up to the character that ends it (`Ends`). A value is
then read from its text whatever ends it (`valueRest?_text`), by induction on the value: the items of a list and
the fields of an object are read in turn, each after the blanks before it, up to the bracket that closes them.
The reader's bound on its steps is not reached: a value needs no more steps than its `size`, which is less than
twice the length of its text (`size_lt`).
-/

namespace PlainSteps.Json

open Text

/-! ## Blanks -/

theorem skipSpace_append {ws : List Char} (h : ∀ c ∈ ws, isSpace c = true) (s : List Char) :
    skipSpace (ws ++ s) = skipSpace s := by
  rw [skipSpace, List.dropWhile_append_of_pos h]
  rfl

theorem skipSpace_cons {c : Char} (h : isSpace c = false) (s : List Char) :
    skipSpace (c :: s) = c :: s := by
  rw [skipSpace, List.dropWhile_cons_of_neg (by simp [h])]

theorem skipSpace_skipSpace (s : List Char) : skipSpace (skipSpace s) = skipSpace s := by
  induction s with
  | nil => rfl
  | cons c s ih =>
    by_cases hc : isSpace c = true
    · have hcons : skipSpace (c :: s) = skipSpace s := List.dropWhile_cons_of_pos hc
      rw [hcons, ih]
    · rw [skipSpace_cons (by simpa using hc), skipSpace_cons (by simpa using hc)]

theorem valueRest?_skipSpace (fuel depth : Nat) (s : List Char) :
    valueRest? fuel depth (skipSpace s) = valueRest? fuel depth s := by
  cases fuel with
  | zero => rfl
  | succ fuel => simp only [valueRest?, skipSpace_skipSpace]

theorem itemsRest?_skipSpace (fuel depth : Nat) (s : List Char) :
    itemsRest? fuel depth (skipSpace s) = itemsRest? fuel depth s := by
  cases fuel with
  | zero => rfl
  | succ fuel => simp only [itemsRest?, valueRest?_skipSpace]

theorem fieldsRest?_skipSpace (fuel depth : Nat) (s : List Char) :
    fieldsRest? fuel depth (skipSpace s) = fieldsRest? fuel depth s := by
  cases fuel with
  | zero => rfl
  | succ fuel => simp only [fieldsRest?, skipSpace_skipSpace]

/-! ## Strings -/

theorem stringRest?_plain {c : Char} (hquote : c ≠ '"') (hslash : c ≠ '\\') (hcode : ¬c.toNat < 32)
    (done s : List Char) : stringRest? done (c :: s) = stringRest? (c :: done) s := by
  rw [stringRest?]
  · rw [if_neg]
    simp [hslash, hcode]
  all_goals simp_all

theorem controlCode_spec : ∀ n : Fin 32,
    controlCode (Char.ofNat n) =
        ['\\', 'u', '0', '0', Nat.digitChar (n / 16), Nat.digitChar (n % 16)] ∧
      hexFour? '0' '0' (Nat.digitChar (n / 16)) (Nat.digitChar (n % 16)) = some n.val := by
  decide +kernel

theorem stringRest?_stringChar (c : Char) (done s : List Char) :
    stringRest? done (stringChar c ++ s) = stringRest? (c :: done) s := by
  by_cases hescaped : c ∈ ['"', '\\', '\n', '\r', '\t', Char.ofNat 8, Char.ofNat 12]
  · simp only [List.mem_cons, List.not_mem_nil, or_false] at hescaped
    rcases hescaped with rfl | rfl | rfl | rfl | rfl | rfl | rfl
    all_goals rfl
  · simp only [List.mem_cons, List.not_mem_nil, or_false, not_or] at hescaped
    obtain ⟨hquote, hslash, hline, hreturn, htab, hback, hfeed⟩ := hescaped
    have hchar : stringChar c = if c.toNat < 32 then controlCode c else [c] := by
      simp only [stringChar, if_neg hquote, if_neg hslash, if_neg hline, if_neg hreturn, if_neg htab,
        if_neg hback, if_neg hfeed]
    by_cases hcode : c.toNat < 32
    · obtain ⟨hdigits, hvalue⟩ := controlCode_spec ⟨c.toNat, hcode⟩
      simp only [Char.ofNat_toNat] at hdigits
      have hleading : isLeading c.toNat = false := by
        simp only [isLeading, Bool.and_eq_false_iff, decide_eq_false_iff_not]
        omega
      have htrailing : isTrailing c.toNat = false := by
        simp only [isTrailing, Bool.and_eq_false_iff, decide_eq_false_iff_not]
        omega
      rw [hchar, if_pos hcode, hdigits]
      simp only [List.cons_append, List.nil_append]
      rw [stringRest?]
      simp only [hvalue, hleading, htrailing, Bool.false_eq_true, if_false, Char.ofNat_toNat]
    · rw [hchar, if_neg hcode]
      exact stringRest?_plain hquote hslash hcode done s

theorem stringRest?_text (cs done s : List Char) :
    stringRest? done (cs.flatMap stringChar ++ '"' :: s) =
      some (String.ofList (done.reverse ++ cs), s) := by
  induction cs generalizing done with
  | nil => simp [stringRest?]
  | cons c cs ih =>
    rw [List.flatMap_cons, List.append_assoc, stringRest?_stringChar, ih]
    simp

/-! ## Numbers -/

/-- What may follow a value: nothing, a comma, a closing bracket or a blank. -/
def Ends (s : List Char) : Prop :=
  ∀ c ∈ s.head?, (c = ',' ∨ c = ']' ∨ c = '\x7d') ∨ c = ' ' ∨ c = '\t' ∨ c = '\n' ∨ c = '\r'

theorem Ends.not_digit {s : List Char} (h : Ends s) : ∀ c ∈ s.head?, isAsciiDigit c = false := by
  intro c hc
  rcases h c hc with (rfl | rfl | rfl) | rfl | rfl | rfl | rfl <;> rfl

theorem ends_comma (s : List Char) : Ends (',' :: s) := by
  rintro c ⟨rfl⟩
  exact .inl (.inl rfl)

theorem ends_of_blanks {ws s : List Char} (hws : ∀ c ∈ ws, isSpace c = true) (hs : Ends s) : Ends (ws ++ s) := by
  cases ws with
  | nil => exact hs
  | cons d ws =>
    rintro c ⟨rfl⟩
    have hspace := hws d List.mem_cons_self
    simp only [isSpace, Bool.or_eq_true, beq_iff_eq, or_assoc] at hspace
    exact .inr hspace

theorem le_digitsFrom (n : Nat) (ds : List Char) : n ≤ Number.digitsFrom n ds := by
  induction ds generalizing n with
  | nil => exact Nat.le_refl n
  | cons c ds ih =>
    have h := ih (10 * n + (c.toNat - '0'.toNat))
    rw [Number.digitsFrom_cons]
    omega

theorem takeWhole_cons (n count : Nat) (c : Char) (s : List Char) : takeWhole n count (c :: s) =
    if isAsciiDigit c then
      if 10 * n + (c.toNat - '0'.toNat) ≤ maxWhole then
        takeWhole (10 * n + (c.toNat - '0'.toNat)) (count + 1) s
      else (n, count, c :: s)
    else (n, count, c :: s) := by
  rfl

theorem takeWhole_digits {ds s : List Char} (hds : ∀ c ∈ ds, isAsciiDigit c = true)
    (hs : ∀ c ∈ s.head?, isAsciiDigit c = false) {n count : Nat}
    (hmax : Number.digitsFrom n ds ≤ maxWhole) :
    takeWhole n count (ds ++ s) = (Number.digitsFrom n ds, count + ds.length, s) := by
  induction ds generalizing n count with
  | nil =>
    cases s with
    | nil => rfl
    | cons c s => rw [List.nil_append, takeWhole_cons, if_neg (by simp [hs c rfl])]; rfl
  | cons c ds ih =>
    obtain ⟨hc, hds⟩ := List.forall_mem_cons.mp hds
    rw [Number.digitsFrom_cons] at hmax
    have hstep := Nat.le_trans (le_digitsFrom _ ds) hmax
    rw [List.cons_append, takeWhole_cons, if_pos hc, if_pos hstep, ih hds hmax, Number.digitsFrom_cons,
      List.length_cons, Nat.add_assoc, Nat.add_comm 1]

theorem numberRest?_digits {n : Nat} (h : n ≤ maxWhole) {s : List Char} (hs : Ends s) :
    numberRest? false (Nat.toDigits 10 n ++ s) = some (number (.whole n), s) := by
  have htake : takeWhole 0 0 (Nat.toDigits 10 n ++ s) = (n, 0 + (Nat.toDigits 10 n).length, s) := by
    have hvalue : Number.digitsFrom 0 (Nat.toDigits 10 n) = n := Number.digitsValue_toDigits n
    rw [takeWhole_digits (fun _ => Number.isAsciiDigit_of_mem_toDigits) hs.not_digit
      (by rw [hvalue]; exact h), hvalue]
  have hzero : ∀ {c t}, Nat.toDigits 10 n = c :: t →
      (c == '0' && ((t ++ s).head?.map isAsciiDigit).getD false) = false := by
    intro c t hct
    by_cases hc : c = '0'
    · have hn : n = 0 := Number.eq_zero_of_head_toDigits (by rw [hct, hc, List.head?_cons])
      rw [hn, Nat.toDigits_zero] at hct
      obtain ⟨-, rfl⟩ := List.cons.inj hct
      rw [List.nil_append]
      cases hs' : s.head? with
      | none => simp
      | some d => simp [hs.not_digit d hs']
    · simp [hc]
  obtain ⟨c, t, hct, hc⟩ := Number.exists_digit n
  have hzero := hzero hct
  rw [hct, List.cons_append] at htake ⊢
  simp only [numberRest?, hc, hzero, htake, Bool.not_true, Bool.false_eq_true, if_false]
  cases s with
  | nil => rfl
  | cons d s =>
    rcases hs d rfl with (rfl | rfl | rfl) | rfl | rfl | rfl | rfl <;> rfl

/-! ## Values -/

mutual

/-- All numbers are whole, without a sign and of 64 bits. -/
def Exact : Json → Prop
  | number (.whole n) => 0 ≤ n ∧ n.toNat ≤ maxWhole
  | number (.double _) => False
  | array items => ItemsExact items
  | object fields => FieldsExact fields
  | _ => True

def ItemsExact : List Json → Prop
  | [] => True
  | v :: vs => Exact v ∧ ItemsExact vs

def FieldsExact : List (String × Json) → Prop
  | [] => True
  | (_, v) :: fs => Exact v ∧ FieldsExact fs

end

mutual

/-- The number of steps in which a value is read. -/
def size : Json → Nat
  | array items => itemsSize items + 1
  | object fields => fieldsSize fields + 1
  | _ => 1

def itemsSize : List Json → Nat
  | [] => 0
  | v :: vs => size v + itemsSize vs + 1

def fieldsSize : List (String × Json) → Nat
  | [] => 0
  | (_, v) :: fs => size v + fieldsSize fs + 1

end

/-- Where blanks stand in the text of a value: before each item of a list or object at a level, before the
bracket that closes one, and before the value of a field. -/
structure Spacing where
  gap : Nat → List Char
  afterName : List Char
  isSpace_of_mem_gap : ∀ {level c}, c ∈ gap level → isSpace c = true
  isSpace_of_mem_afterName : ∀ {c}, c ∈ afterName → isSpace c = true

namespace Spacing

/-- No blanks. -/
def tight : Spacing where
  gap _ := []
  afterName := []
  isSpace_of_mem_gap hc := absurd hc List.not_mem_nil
  isSpace_of_mem_afterName hc := absurd hc List.not_mem_nil

/-- A line for each item, indented by its level. -/
def spread : Spacing where
  gap level := '\n' :: List.replicate (2 * level) ' '
  afterName := [' ']
  isSpace_of_mem_gap hc := by
    rcases List.mem_cons.mp hc with rfl | hc
    · rfl
    · rw [List.eq_of_mem_replicate hc]
      rfl
  isSpace_of_mem_afterName hc := by
    rw [List.mem_singleton.mp hc]
    rfl

/-- The text of items, with commas between them. -/
def items (sp : Spacing) (level : Nat) : List (List Char) → List Char
  | [] => []
  | [x] => sp.gap level ++ x
  | x :: y :: xs => sp.gap level ++ (x ++ ',' :: sp.items level (y :: xs))

def block (sp : Spacing) (level : Nat) (opening closing : Char) : List (List Char) → List Char
  | [] => [opening, closing]
  | x :: xs => opening :: (sp.items (level + 1) (x :: xs) ++ (sp.gap level ++ [closing]))

def field (sp : Spacing) (name : String) (text : List Char) : List Char :=
  (quotedText name).toList ++ ':' :: (sp.afterName ++ text)

mutual

def text (sp : Spacing) (level : Nat) : Json → List Char
  | null => ['n', 'u', 'l', 'l']
  | bool true => ['t', 'r', 'u', 'e']
  | bool false => ['f', 'a', 'l', 's', 'e']
  | number n => n.text.toList
  | string s => (quotedText s).toList
  | array vs => sp.block level '[' ']' (sp.itemTexts (level + 1) vs)
  | object fs => sp.block level '\x7b' '\x7d' (sp.fieldTexts (level + 1) fs)

def itemTexts (sp : Spacing) (level : Nat) : List Json → List (List Char)
  | [] => []
  | v :: vs => sp.text level v :: sp.itemTexts level vs

def fieldTexts (sp : Spacing) (level : Nat) : List (String × Json) → List (List Char)
  | [] => []
  | (name, v) :: fs => sp.field name (sp.text level v) :: sp.fieldTexts level fs

end

end Spacing

/-! ## The two texts of a value -/

theorem toList_block (level : Nat) (opening closing : Char) (xs : List String) :
    (block level (String.singleton opening) (String.singleton closing) xs).toList =
      Spacing.spread.block level opening closing (xs.map String.toList) := by
  have hjoined : ∀ (xs : List String) (x : String),
      '\n' :: (joined ",\n" ((x :: xs).map (indentation (level + 1) ++ ·))).toList =
        Spacing.spread.items (level + 1) ((x :: xs).map String.toList) := by
    intro xs
    induction xs with
    | nil => intro x; simp [joined, Spacing.items, Spacing.spread, indentation]
    | cons y xs ih =>
      intro x
      have hrest := ih y
      simp only [List.map_cons] at hrest ⊢
      rw [Spacing.items, ← hrest]
      simp [joined, Spacing.spread, indentation]
  cases xs with
  | nil => simp [block, Spacing.block]
  | cons x xs =>
    rw [List.map_cons, Spacing.block, ← List.map_cons, ← hjoined xs x]
    simp [block, Spacing.spread, indentation]

mutual

theorem toList_prettyAt (level : Nat) : ∀ v : Json, (prettyAt level v).toList = Spacing.spread.text level v
  | null => by simp [prettyAt, Spacing.text]
  | bool true => by simp [prettyAt, Spacing.text]
  | bool false => by simp [prettyAt, Spacing.text]
  | number n => by rw [prettyAt, Spacing.text]
  | string s => by rw [prettyAt, Spacing.text]
  | array vs => by
    rw [prettyAt, Spacing.text, ← toList_prettyItems (level + 1) vs]
    exact toList_block level '[' ']' (prettyItems (level + 1) vs)
  | object fs => by
    rw [prettyAt, Spacing.text, ← toList_prettyFields (level + 1) fs]
    exact toList_block level '\x7b' '\x7d' (prettyFields (level + 1) fs)

theorem toList_prettyItems (level : Nat) :
    ∀ vs : List Json, (prettyItems level vs).map String.toList = Spacing.spread.itemTexts level vs
  | [] => rfl
  | v :: vs => by
    rw [prettyItems, List.map_cons, toList_prettyAt level v, toList_prettyItems level vs, Spacing.itemTexts]

theorem toList_prettyFields (level : Nat) : ∀ fs : List (String × Json),
    (prettyFields level fs).map String.toList = Spacing.spread.fieldTexts level fs
  | [] => rfl
  | (name, v) :: fs => by
    rw [prettyFields, List.map_cons, toList_prettyFields level fs, Spacing.fieldTexts, Spacing.field,
      ← toList_prettyAt level v]
    simp [Spacing.spread]

end

theorem toList_joined (level : Nat) (opening closing : Char) (xs : List String) :
    opening :: ((joined "," xs).toList ++ [closing]) =
      Spacing.tight.block level opening closing (xs.map String.toList) := by
  have hjoined : ∀ (xs : List String) (x : String),
      (joined "," (x :: xs)).toList = Spacing.tight.items (level + 1) ((x :: xs).map String.toList) := by
    intro xs
    induction xs with
    | nil => intro x; simp [joined, Spacing.items, Spacing.tight]
    | cons y xs ih =>
      intro x
      rw [List.map_cons, List.map_cons, Spacing.items, ← List.map_cons, ← ih y]
      simp [joined, Spacing.tight]
  cases xs with
  | nil => rfl
  | cons x xs =>
    rw [List.map_cons, Spacing.block, ← List.map_cons, ← hjoined xs x]
    rfl

mutual

theorem toList_compact (level : Nat) : ∀ v : Json, v.compact.toList = Spacing.tight.text level v
  | null => by simp [compact, Spacing.text]
  | bool true => by simp [compact, Spacing.text]
  | bool false => by simp [compact, Spacing.text]
  | number n => by rw [compact, Spacing.text]
  | string s => by rw [compact, Spacing.text]
  | array vs => by
    rw [Spacing.text, ← toList_compactItems (level + 1) vs, ← toList_joined]
    simp [compact]
  | object fs => by
    rw [Spacing.text, ← toList_compactFields (level + 1) fs, ← toList_joined]
    simp [compact]

theorem toList_compactItems (level : Nat) :
    ∀ vs : List Json, (compactItems vs).map String.toList = Spacing.tight.itemTexts level vs
  | [] => rfl
  | v :: vs => by
    rw [compactItems, List.map_cons, toList_compact level v, toList_compactItems level vs, Spacing.itemTexts]

theorem toList_compactFields (level : Nat) : ∀ fs : List (String × Json),
    (compactFields fs).map String.toList = Spacing.tight.fieldTexts level fs
  | [] => rfl
  | (name, v) :: fs => by
    rw [compactFields, List.map_cons, toList_compactFields level fs, Spacing.fieldTexts, Spacing.field,
      ← toList_compact level v]
    simp [Spacing.tight]

end

/-! ## Steps of the reader -/

theorem toList_quotedText (s : String) :
    (quotedText s).toList = '"' :: (s.toList.flatMap stringChar ++ ['"']) := by
  simp [quotedText]

theorem stringRest?_name (name : String) (s : List Char) :
    stringRest? [] (name.toList.flatMap stringChar ++ '"' :: s) = some (name, s) := by
  rw [stringRest?_text, List.reverse_nil, List.nil_append, String.ofList_toList]

theorem valueRest?_digit {c : Char} (hc : isAsciiDigit c = true) (fuel depth : Nat) (s : List Char) :
    valueRest? (fuel + 1) depth (c :: s) = numberRest? false (c :: s) := by
  have hall := Number.digit_cases hc
  simp only [List.mem_cons, List.not_mem_nil, or_false] at hall
  rcases hall with rfl | rfl | rfl | rfl | rfl | rfl | rfl | rfl | rfl | rfl
  all_goals rfl

theorem valueRest?_number {n : Nat} (h : n ≤ maxWhole) {rest : List Char} (hrest : Ends rest)
    (fuel depth : Nat) :
    valueRest? (fuel + 1) depth (Nat.toDigits 10 n ++ rest) = some (number (.whole n), rest) := by
  obtain ⟨c, s, hcs, hc⟩ := Number.exists_digit n
  have hread := numberRest?_digits h hrest
  rw [hcs] at hread
  rw [hcs, List.cons_append, valueRest?_digit hc]
  exact hread

theorem valueRest?_string (s : String) (rest : List Char) (fuel depth : Nat) :
    valueRest? (fuel + 1) depth ((quotedText s).toList ++ rest) = some (string s, rest) := by
  have htext : (quotedText s).toList ++ rest = '"' :: (s.toList.flatMap stringChar ++ '"' :: rest) := by
    rw [toList_quotedText, List.cons_append, List.append_assoc]
    rfl
  have hopen := skipSpace_cons (c := '"') rfl (s.toList.flatMap stringChar ++ '"' :: rest)
  rw [htext]
  simp only [valueRest?, hopen, stringRest?_name, Option.map_some]

theorem valueRest?_array {s : List Char} (h : ∀ u, skipSpace s ≠ ']' :: u) (fuel depth : Nat) :
    valueRest? (fuel + 1) (depth + 1) ('[' :: s) =
      (itemsRest? fuel depth s).map fun r => (array r.1, r.2) := by
  have hopen : skipSpace ('[' :: s) = '[' :: s := skipSpace_cons rfl s
  simp only [valueRest?, hopen, itemsRest?_skipSpace]

theorem valueRest?_object {s : List Char} (h : ∀ u, skipSpace s ≠ '\x7d' :: u) (fuel depth : Nat) :
    valueRest? (fuel + 1) (depth + 1) ('\x7b' :: s) =
      (fieldsRest? fuel depth s).map fun r => (object r.1, r.2) := by
  have hopen : skipSpace ('\x7b' :: s) = '\x7b' :: s := skipSpace_cons rfl s
  simp only [valueRest?, hopen, fieldsRest?_skipSpace]

theorem itemsRest?_last {fuel depth : Nat} {s t u : List Char} {v : Json}
    (hv : valueRest? fuel depth s = some (v, t)) (ht : skipSpace t = ']' :: u) :
    itemsRest? (fuel + 1) depth s = some ([v], u) := by
  simp only [itemsRest?, hv, ht]

theorem itemsRest?_next {fuel depth : Nat} {s t u : List Char} {v : Json} {vs : List Json}
    (hv : valueRest? fuel depth s = some (v, ',' :: t)) (hvs : itemsRest? fuel depth t = some (vs, u)) :
    itemsRest? (fuel + 1) depth s = some (v :: vs, u) := by
  have hcomma : skipSpace (',' :: t) = ',' :: t := skipSpace_cons rfl t
  simp only [itemsRest?, hv, hcomma, hvs, Option.map_some]

theorem fieldsRest?_last {fuel depth : Nat} {name : String} {s t u : List Char} {v : Json}
    (hv : valueRest? fuel depth s = some (v, t)) (ht : skipSpace t = '\x7d' :: u) :
    fieldsRest? (fuel + 1) depth ('"' :: (name.toList.flatMap stringChar ++ '"' :: ':' :: s)) =
      some ([(name, v)], u) := by
  have hopen := skipSpace_cons (c := '"') rfl (name.toList.flatMap stringChar ++ '"' :: ':' :: s)
  have hcolon : skipSpace (':' :: s) = ':' :: s := skipSpace_cons rfl s
  simp only [fieldsRest?, hopen, stringRest?_name, hcolon, hv, ht]

theorem fieldsRest?_next {fuel depth : Nat} {name : String} {s t u : List Char} {v : Json}
    {fs : List (String × Json)} (hv : valueRest? fuel depth s = some (v, ',' :: t))
    (hfs : fieldsRest? fuel depth t = some (fs, u)) :
    fieldsRest? (fuel + 1) depth ('"' :: (name.toList.flatMap stringChar ++ '"' :: ':' :: s)) =
      some ((name, v) :: fs, u) := by
  have hopen := skipSpace_cons (c := '"') rfl (name.toList.flatMap stringChar ++ '"' :: ':' :: s)
  have hcolon : skipSpace (':' :: s) = ':' :: s := skipSpace_cons rfl s
  have hcomma : skipSpace (',' :: t) = ',' :: t := skipSpace_cons rfl t
  simp only [fieldsRest?, hopen, stringRest?_name, hcolon, hv, hcomma, hfs, Option.map_some]

/-! ## Values from their text -/

namespace Spacing

variable (sp : Spacing)

theorem skipSpace_gap (level : Nat) (s : List Char) : skipSpace (sp.gap level ++ s) = skipSpace s :=
  skipSpace_append (fun _ => sp.isSpace_of_mem_gap) s

theorem valueRest?_gap (fuel depth level : Nat) (s : List Char) :
    valueRest? fuel depth (sp.gap level ++ s) = valueRest? fuel depth s := by
  rw [← valueRest?_skipSpace, sp.skipSpace_gap, valueRest?_skipSpace]

theorem fieldsRest?_gap (fuel depth level : Nat) (s : List Char) :
    fieldsRest? fuel depth (sp.gap level ++ s) = fieldsRest? fuel depth s := by
  rw [← fieldsRest?_skipSpace, sp.skipSpace_gap, fieldsRest?_skipSpace]

theorem valueRest?_afterName (fuel depth : Nat) (s : List Char) :
    valueRest? fuel depth (sp.afterName ++ s) = valueRest? fuel depth s := by
  rw [← valueRest?_skipSpace, skipSpace_append fun _ => sp.isSpace_of_mem_afterName, valueRest?_skipSpace]

theorem skipSpace_closing (level : Nat) {c : Char} (hc : isSpace c = false) (rest : List Char) :
    skipSpace (sp.gap level ++ c :: rest) = c :: rest := by
  rw [sp.skipSpace_gap, skipSpace_cons hc]

theorem ends_closing (level : Nat) {c : Char} (hc : c = ']' ∨ c = '\x7d') (rest : List Char) :
    Ends (sp.gap level ++ c :: rest) := by
  refine ends_of_blanks (fun _ => sp.isSpace_of_mem_gap) ?_
  rintro d ⟨rfl⟩
  exact .inl (.inr hc)

theorem field_eq (name : String) (s : List Char) : sp.field name s =
    '"' :: (name.toList.flatMap stringChar ++ '"' :: ':' :: (sp.afterName ++ s)) := by
  rw [field, toList_quotedText, List.cons_append, List.append_assoc]
  rfl

theorem text_whole (level n : Nat) : sp.text level (number (.whole n)) = Nat.toDigits 10 n := by
  rw [text]
  exact PlainSteps.Number.toList_toString n

theorem head_text {v : Json} (h : v.Exact) (level : Nat) :
    ∃ c s, sp.text level v = c :: s ∧ isSpace c = false ∧ c ≠ ']' := by
  cases v with
  | null => exact ⟨'n', _, by rw [text], rfl, by decide⟩
  | bool b =>
    cases b with
    | true => exact ⟨'t', _, by rw [text], rfl, by decide⟩
    | false => exact ⟨'f', _, by rw [text], rfl, by decide⟩
  | number n =>
    cases n with
    | whole n =>
      obtain ⟨k, rfl⟩ := Int.eq_ofNat_of_zero_le h.1
      obtain ⟨c, s, hcs, hc⟩ := Number.exists_digit k
      have hplain := Number.all_digits (p := fun c => !isSpace c && c != ']') (by decide) hc
      simp only [Bool.and_eq_true, Bool.not_eq_true', bne_iff_ne] at hplain
      exact ⟨c, s, (sp.text_whole level k).trans hcs, hplain.1, hplain.2⟩
    | double x => exact h.elim
  | string s => exact ⟨'"', _, by rw [text, toList_quotedText], rfl, by decide⟩
  | array vs =>
    cases vs with
    | nil => exact ⟨'[', _, by rw [text, itemTexts, block], rfl, by decide⟩
    | cons v vs => exact ⟨'[', _, by rw [text, itemTexts, block], rfl, by decide⟩
  | object fs =>
    cases fs with
    | nil => exact ⟨'\x7b', _, by rw [text, fieldTexts, block], rfl, by decide⟩
    | cons f fs => exact ⟨'\x7b', _, by rw [text, fieldTexts, block], rfl, by decide⟩

theorem skipSpace_items {c : Char} (hc : isSpace c = false) (level : Nat) (s : List Char)
    (xs : List (List Char)) (rest : List Char) :
    ∃ t, skipSpace (sp.items level ((c :: s) :: xs) ++ rest) = c :: t := by
  cases xs with
  | nil =>
    rw [items, List.append_assoc, sp.skipSpace_gap]
    exact ⟨_, skipSpace_cons hc _⟩
  | cons x xs =>
    rw [items, List.append_assoc, sp.skipSpace_gap]
    exact ⟨_, skipSpace_cons hc _⟩

-- One induction over values, lists and fields. The bound on the steps goes down with each of them, the bound
-- on the depth only where a bracket opens.
mutual

/-- A value is read back from its text, whatever ends it there. -/
theorem valueRest?_text : ∀ {v : Json}, v.Exact → ∀ {fuel depth : Nat}, v.size ≤ fuel → v.depth ≤ depth →
    ∀ (level : Nat) {rest : List Char}, Ends rest →
      valueRest? fuel depth (sp.text level v ++ rest) = some (v, rest)
  | null, _, fuel + 1, depth, _, _, level, rest, _ => by
    rw [text]
    rfl
  | bool true, _, fuel + 1, depth, _, _, level, rest, _ => by
    rw [text]
    rfl
  | bool false, _, fuel + 1, depth, _, _, level, rest, _ => by
    rw [text]
    rfl
  | number (.whole n), hexact, fuel + 1, depth, _, _, level, rest, hrest => by
    obtain ⟨k, rfl⟩ := Int.eq_ofNat_of_zero_le hexact.1
    rw [sp.text_whole]
    exact valueRest?_number hexact.2 hrest fuel depth
  | string s, _, fuel + 1, depth, _, _, level, rest, _ => by
    rw [text]
    exact valueRest?_string s rest fuel depth
  | array [], _, fuel + 1, depth + 1, _, _, level, rest, _ => by
    rw [text, itemTexts, block]
    rfl
  | array (v :: vs), hexact, fuel + 1, depth + 1, hfuel, hdepth, level, rest, _ => by
    have hitems := itemsRest?_items (v :: vs) (List.cons_ne_nil v vs) hexact
      (Nat.le_of_succ_le_succ hfuel) (Nat.le_of_succ_le_succ hdepth) (level + 1) level rest
    -- the list is not closed at once: its first item begins with another character
    have hopen : ∀ u, skipSpace (sp.items (level + 1) (sp.itemTexts (level + 1) (v :: vs)) ++
        (sp.gap level ++ ']' :: rest)) ≠ ']' :: u := by
      intro u hu
      obtain ⟨c, s, hcs, hspace, hbracket⟩ := sp.head_text hexact.1 (level + 1)
      obtain ⟨t, ht⟩ := sp.skipSpace_items hspace (level + 1) s (sp.itemTexts (level + 1) vs)
        (sp.gap level ++ ']' :: rest)
      rw [itemTexts, hcs, ht] at hu
      exact hbracket (List.cons.inj hu).1
    rw [text, itemTexts, block, ← itemTexts, List.cons_append, List.append_assoc, List.append_assoc,
      List.singleton_append, valueRest?_array hopen, hitems]
    rfl
  | object [], _, fuel + 1, depth + 1, _, _, level, rest, _ => by
    rw [text, fieldTexts, block]
    rfl
  | object ((name, v) :: fs), hexact, fuel + 1, depth + 1, hfuel, hdepth, level, rest, _ => by
    have hfields := fieldsRest?_fields ((name, v) :: fs) (List.cons_ne_nil _ fs) hexact
      (Nat.le_of_succ_le_succ hfuel) (Nat.le_of_succ_le_succ hdepth) (level + 1) level rest
    have hopen : ∀ u, skipSpace (sp.items (level + 1) (sp.fieldTexts (level + 1) ((name, v) :: fs)) ++
        (sp.gap level ++ '\x7d' :: rest)) ≠ '\x7d' :: u := by
      intro u hu
      rw [fieldTexts, sp.field_eq] at hu
      obtain ⟨t, ht⟩ := sp.skipSpace_items (c := '"') rfl (level + 1) _
        (sp.fieldTexts (level + 1) fs) (sp.gap level ++ '\x7d' :: rest)
      rw [ht] at hu
      exact absurd (List.cons.inj hu).1 (by decide)
    rw [text, fieldTexts, block, ← fieldTexts, List.cons_append, List.append_assoc, List.append_assoc,
      List.singleton_append, valueRest?_object hopen, hfields]
    rfl

theorem itemsRest?_items : ∀ (vs : List Json), vs ≠ [] → ItemsExact vs → ∀ {fuel depth : Nat},
    itemsSize vs ≤ fuel → itemsDepth vs ≤ depth → ∀ (level outer : Nat) (rest : List Char),
      itemsRest? fuel depth (sp.items level (sp.itemTexts level vs) ++ (sp.gap outer ++ ']' :: rest)) =
        some (vs, rest)
  | [v], _, hexact, fuel + 1, depth, hfuel, hdepth, level, outer, rest => by
    have hsize : v.size ≤ fuel := Nat.le_of_succ_le_succ hfuel
    have hdeep : v.depth ≤ depth := Nat.le_trans (Nat.le_max_left _ _) hdepth
    have hread := valueRest?_text hexact.1 hsize hdeep level (sp.ends_closing outer (.inl rfl) rest)
    rw [itemTexts, itemTexts, items, List.append_assoc]
    refine itemsRest?_last ?_ (sp.skipSpace_closing outer rfl rest)
    rw [sp.valueRest?_gap, hread]
  | v :: w :: vs, _, hexact, fuel + 1, depth, hfuel, hdepth, level, outer, rest => by
    have hbound : v.size + itemsSize (w :: vs) ≤ fuel := Nat.le_of_succ_le_succ hfuel
    have hsize : v.size ≤ fuel := by omega
    have hsizes : itemsSize (w :: vs) ≤ fuel := by omega
    have hdeep : v.depth ≤ depth := Nat.le_trans (Nat.le_max_left _ _) hdepth
    have hdeeps : itemsDepth (w :: vs) ≤ depth := Nat.le_trans (Nat.le_max_right _ _) hdepth
    have hrests := itemsRest?_items (w :: vs) (List.cons_ne_nil w vs) hexact.2 hsizes hdeeps
      level outer rest
    rw [itemTexts, itemTexts, items, ← itemTexts, List.append_assoc, List.append_assoc]
    refine itemsRest?_next ?_ hrests
    rw [sp.valueRest?_gap]
    exact valueRest?_text hexact.1 hsize hdeep level (ends_comma _)

theorem fieldsRest?_fields : ∀ (fs : List (String × Json)), fs ≠ [] → FieldsExact fs →
    ∀ {fuel depth : Nat}, fieldsSize fs ≤ fuel → fieldsDepth fs ≤ depth →
      ∀ (level outer : Nat) (rest : List Char),
        fieldsRest? fuel depth (sp.items level (sp.fieldTexts level fs) ++
          (sp.gap outer ++ '\x7d' :: rest)) = some (fs, rest)
  | [(name, v)], _, hexact, fuel + 1, depth, hfuel, hdepth, level, outer, rest => by
    have hsize : v.size ≤ fuel := Nat.le_of_succ_le_succ hfuel
    have hdeep : v.depth ≤ depth := Nat.le_trans (Nat.le_max_left _ _) hdepth
    have hread := valueRest?_text hexact.1 hsize hdeep level (sp.ends_closing outer (.inr rfl) rest)
    rw [fieldTexts, fieldTexts, items, sp.field_eq, List.append_assoc, sp.fieldsRest?_gap]
    simp only [List.cons_append, List.append_assoc]
    refine fieldsRest?_last ?_ (sp.skipSpace_closing outer rfl rest)
    rw [sp.valueRest?_afterName, hread]
  | (name, v) :: (other, w) :: fs, _, hexact, fuel + 1, depth, hfuel, hdepth, level, outer, rest => by
    have hbound : v.size + fieldsSize ((other, w) :: fs) ≤ fuel := Nat.le_of_succ_le_succ hfuel
    have hsize : v.size ≤ fuel := by omega
    have hsizes : fieldsSize ((other, w) :: fs) ≤ fuel := by omega
    have hdeep : v.depth ≤ depth := Nat.le_trans (Nat.le_max_left _ _) hdepth
    have hdeeps : fieldsDepth ((other, w) :: fs) ≤ depth := Nat.le_trans (Nat.le_max_right _ _) hdepth
    have hrests := fieldsRest?_fields ((other, w) :: fs) (List.cons_ne_nil _ fs) hexact.2 hsizes
      hdeeps level outer rest
    rw [fieldTexts, fieldTexts, items, ← fieldTexts, sp.field_eq, List.append_assoc, sp.fieldsRest?_gap]
    simp only [List.cons_append, List.append_assoc]
    refine fieldsRest?_next ?_ hrests
    rw [sp.valueRest?_afterName]
    exact valueRest?_text hexact.1 hsize hdeep level (ends_comma _)

end

/-! ## Whole texts -/

theorem length_items_single (level : Nat) (x : List Char) : x.length ≤ (sp.items level [x]).length := by
  rw [items, List.length_append]
  omega

theorem length_items_cons (level : Nat) (x y : List Char) (xs : List (List Char)) :
    x.length + (sp.items level (y :: xs)).length + 1 ≤ (sp.items level (x :: y :: xs)).length := by
  rw [items]
  simp only [List.length_append, List.length_cons]
  omega

theorem length_field (name : String) (s : List Char) : s.length + 3 ≤ (sp.field name s).length := by
  rw [sp.field_eq]
  simp only [List.length_append, List.length_cons]
  omega

theorem one_lt_length {v : Json} (h : v.Exact) (level : Nat) : 1 < 2 * (sp.text level v).length := by
  obtain ⟨c, s, hcs, -⟩ := sp.head_text h level
  rw [hcs, List.length_cons]
  omega

mutual

theorem size_lt : ∀ (v : Json), v.Exact → ∀ (level : Nat), v.size < 2 * (sp.text level v).length
  | array [], _, level => by
    rw [text, itemTexts, block]
    decide
  | array (v :: vs), hexact, level => by
    have hitems := itemsSize_le (v :: vs) (List.cons_ne_nil v vs) hexact (level + 1)
    rw [text, itemTexts, block, ← itemTexts, size]
    simp only [List.length_cons, List.length_append]
    omega
  | object [], _, level => by
    rw [text, fieldTexts, block]
    decide
  | object ((name, v) :: fs), hexact, level => by
    have hfields := fieldsSize_le ((name, v) :: fs) (List.cons_ne_nil _ fs) hexact (level + 1)
    rw [text, fieldTexts, block, ← fieldTexts, size]
    simp only [List.length_cons, List.length_append]
    omega
  | null, hexact, level => sp.one_lt_length hexact level
  | bool _, hexact, level => sp.one_lt_length hexact level
  | number _, hexact, level => sp.one_lt_length hexact level
  | string _, hexact, level => sp.one_lt_length hexact level

theorem itemsSize_le : ∀ (vs : List Json), vs ≠ [] → ItemsExact vs → ∀ (level : Nat),
    itemsSize vs ≤ 2 * (sp.items level (sp.itemTexts level vs)).length
  | [v], _, hexact, level => by
    have hv := size_lt v hexact.1 level
    have hitem := sp.length_items_single level (sp.text level v)
    rw [itemTexts, itemTexts, itemsSize, itemsSize]
    omega
  | v :: w :: vs, _, hexact, level => by
    have hv := size_lt v hexact.1 level
    have hvs := itemsSize_le (w :: vs) (List.cons_ne_nil w vs) hexact.2 level
    have hitem := sp.length_items_cons level (sp.text level v) (sp.text level w) (sp.itemTexts level vs)
    rw [itemTexts] at hvs
    rw [itemTexts, itemTexts, itemsSize]
    omega

theorem fieldsSize_le : ∀ (fs : List (String × Json)), fs ≠ [] → FieldsExact fs → ∀ (level : Nat),
    fieldsSize fs ≤ 2 * (sp.items level (sp.fieldTexts level fs)).length
  | [(name, v)], _, hexact, level => by
    have hv := size_lt v hexact.1 level
    have hitem := sp.length_items_single level (sp.field name (sp.text level v))
    have hfield := sp.length_field name (sp.text level v)
    rw [fieldTexts, fieldTexts, fieldsSize, fieldsSize]
    omega
  | (name, v) :: (other, w) :: fs, _, hexact, level => by
    have hv := size_lt v hexact.1 level
    have hfs := fieldsSize_le ((other, w) :: fs) (List.cons_ne_nil _ fs) hexact.2 level
    have hitem := sp.length_items_cons level (sp.field name (sp.text level v))
      (sp.field other (sp.text level w)) (sp.fieldTexts level fs)
    have hfield := sp.length_field name (sp.text level v)
    rw [fieldTexts] at hfs
    rw [fieldTexts, fieldTexts, fieldsSize]
    omega

end

theorem read?_of_text {v : Json} (hexact : v.Exact) (hdepth : v.depth ≤ maxNesting) {s : String}
    {blanks : List Char} (hs : s.toList = sp.text 0 v ++ blanks) (hblanks : ∀ c ∈ blanks, isSpace c = true) :
    read? s = some v := by
  have hends : Ends blanks := by
    have hnone : Ends [] := fun c hc => nomatch hc
    have h := ends_of_blanks hblanks hnone
    rwa [List.append_nil] at h
  have hblank : skipSpace blanks = [] := by
    have h := skipSpace_append hblanks []
    rwa [List.append_nil] at h
  have hfuel : v.size ≤ 2 * (sp.text 0 v ++ blanks).length + 2 := by
    have hsize := sp.size_lt v hexact 0
    rw [List.length_append]
    omega
  have hread := sp.valueRest?_text hexact hfuel hdepth 0 hends
  rw [read?, readValue?, hs]
  simp only [hread, hblank, List.isEmpty_nil, if_true]

end Spacing

/-- A value is read back from its text over several lines, with any number of line ends after it. -/
theorem read?_pretty {v : Json} (hexact : v.Exact) (hdepth : v.depth ≤ maxNesting) {s : String}
    (hs : ∀ c ∈ s.toList, c = '\n') : read? (v.pretty ++ s) = some v := by
  refine Spacing.spread.read?_of_text hexact hdepth (?_ : _ = _ ++ s.toList) fun c hc => ?_
  · rw [String.toList_append, pretty, toList_prettyAt]
  · rw [hs c hc]
    rfl

theorem read?_compact {v : Json} (hexact : v.Exact) (hdepth : v.depth ≤ maxNesting) :
    read? v.compact = some v := by
  have htext : v.compact.toList = Spacing.tight.text 0 v ++ [] := by
    rw [List.append_nil, toList_compact]
  exact Spacing.tight.read?_of_text hexact hdepth htext (by simp)

end PlainSteps.Json
