import PlainSteps.Variables

/-!
# Putting stored texts into a sentence

`Variables.substituteChars` goes through a sentence once, from left to right: what it does at a brace
and at any other character (`substituteChars_placeholder`, `substituteChars_brace`,
`substituteChars_cons`). It works on the two sides of a blank apart (`substituteChars_append_break`).
-/

namespace PlainSteps.Variables

variable (vars : Variables)

/-- What stands in the place of a name between braces. -/
def replacement (name : List Char) : List Char :=
  match vars.get? (String.ofList name) with
  | some value => value.toList
  | none => '{' :: name ++ ['}']

@[simp] theorem substituteChars_nil : vars.substituteChars [] = [] := by
  rw [substituteChars]

theorem substituteChars_cons {c : Char} (hc : c ≠ '{') (s : List Char) :
    vars.substituteChars (c :: s) = c :: vars.substituteChars s := by
  rw [substituteChars]
  exact hc

theorem substituteChars_append {s : List Char} (hs : '{' ∉ s) (t : List Char) :
    vars.substituteChars (s ++ t) = s ++ vars.substituteChars t := by
  induction s with
  | nil => rfl
  | cons c s ih =>
    rw [List.mem_cons, not_or] at hs
    rw [List.cons_append, substituteChars_cons vars (Ne.symm hs.1), ih hs.2, List.cons_append]

/-- A placeholder is replaced, and what replaces it is not read again. -/
theorem substituteChars_placeholder {s name rest : List Char}
    (h : placeholder? s = some (name, rest)) :
    vars.substituteChars ('{' :: s) = vars.replacement name ++ vars.substituteChars rest := by
  rw [substituteChars]
  split
  · rename_i name' rest' h'
    rw [h] at h'
    cases h'
    rfl
  · rename_i h'
    rw [h] at h'
    cases h'

theorem substituteChars_brace {s : List Char} (h : placeholder? s = none) :
    vars.substituteChars ('{' :: s) = '{' :: vars.substituteChars s := by
  rw [substituteChars]
  split
  · rename_i name' rest' h'
    rw [h] at h'
    cases h'
  · rfl

/-! ## Texts put together -/

theorem placeholder?_append {c : Char} (hc : continuesName c = false) (hclose : c ≠ '}')
    (s t : List Char) :
    placeholder? (s ++ c :: t) = (placeholder? s).map fun p => (p.1, p.2 ++ c :: t) := by
  have htake : (s ++ c :: t).takeWhile continuesName = s.takeWhile continuesName := by
    rw [List.takeWhile_append, List.takeWhile_cons_of_neg (by simp [hc]), List.append_nil]
    split
    · rename_i h
      exact ((List.takeWhile_prefix continuesName).eq_of_length h).symm
    · rfl
  have hdrop : (s ++ c :: t).drop (s.takeWhile continuesName).length =
      s.drop (s.takeWhile continuesName).length ++ c :: t :=
    List.drop_append_of_le_length (List.takeWhile_prefix continuesName).length_le
  simp only [placeholder?, htake, hdrop]
  rcases s.drop (s.takeWhile continuesName).length with _ | ⟨d, rest⟩
  · rw [List.nil_append]
    split
    · rename_i h
      exact absurd (List.cons.inj h).1 hclose
    · rfl
  · by_cases hd : d = '}'
    · subst hd
      simp only [List.cons_append]
      split <;> rfl
    · simp [hd]

theorem substituteChars_append_break {c : Char} (hc : continuesName c = false) (hclose : c ≠ '}')
    (s t : List Char) :
    vars.substituteChars (s ++ c :: t) =
      vars.substituteChars s ++ vars.substituteChars (c :: t) := by
  fun_induction vars.substituteChars s with
  | case1 => rfl
  | case2 s name rest h hlt ih =>
    have hname : placeholder? (s ++ c :: t) = some (name, rest ++ c :: t) := by
      rw [placeholder?_append hc hclose, h, Option.map_some]
    rw [List.cons_append, substituteChars_placeholder vars hname, ih, ← List.append_assoc]
    rfl
  | case3 s h ih =>
    have hnone : placeholder? (s ++ c :: t) = none := by
      rw [placeholder?_append hc hclose, h, Option.map_none]
    rw [List.cons_append, substituteChars_brace vars hnone, ih, List.cons_append]
  | case4 d s hd ih => rw [List.cons_append, substituteChars_cons vars hd, ih, List.cons_append]

theorem substituteChars_eq_self {s : List Char} (hs : '{' ∉ s) : vars.substituteChars s = s := by
  have h := vars.substituteChars_append hs []
  rwa [List.append_nil, substituteChars_nil, List.append_nil] at h

theorem placeholder?_name {n : List Char} (hn : isName n = true)
    (hall : ∀ c ∈ n, continuesName c = true) (rest : List Char) :
    placeholder? (n ++ '}' :: rest) = some (n, rest) := by
  have htake : (n ++ '}' :: rest).takeWhile continuesName = n := by
    rw [List.takeWhile_append_of_pos hall, List.takeWhile_cons_of_neg (by decide), List.append_nil]
  simp only [placeholder?, htake, List.drop_left, hn, if_true]

end PlainSteps.Variables
