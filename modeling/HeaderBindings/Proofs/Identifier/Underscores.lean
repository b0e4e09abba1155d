import HeaderBindings.Proofs.Identifier
import HeaderBindings.Proofs.Lowercase

/-! # Underscore forms, cut at an underscore

The underscore form of an identifier can be cut at each of its underscores, whether the identifier
has that underscore or a break was put there: the identifier has a part in front with the first
piece as its underscore form, and a part behind with the second, but for leading underscores. -/

namespace HeaderBindings.Identifier

open List Text

/-! ## Breaks of a part -/

/-- Whether a break goes before a text that follows the character `before`. -/
def startsBroken (before : Char) : Text → Bool
  | [] => false
  | c :: rest => c.isUpper && isSmallOrDigit before || (before != '\n' && opensWord (c :: rest))

theorem breakBehind_of_startsBroken {before c : Char} {rest : Text}
    (h : startsBroken before (c :: rest) = true) :
    breakBehind before (c :: rest) = '_' :: c :: breakBehind c rest :=
  if_pos h

theorem breakBehind_of_not_startsBroken {before c : Char} {rest : Text}
    (h : startsBroken before (c :: rest) = false) :
    breakBehind before (c :: rest) = c :: breakBehind c rest :=
  if_neg (Bool.not_eq_true _ ▸ h)

theorem isUpper_of_startsBroken {before c : Char} {rest : Text}
    (h : startsBroken before (c :: rest) = true) : c.isUpper = true := by
  rw [startsBroken, opensWord_cons] at h
  revert h
  cases c.isUpper
  · simp
  · simp

theorem ne_underscore_of_isUpper {c : Char} (h : c.isUpper = true) : c ≠ '_' := by
  rintro rfl
  exact absurd h (by decide)

theorem not_isLower_of_isUpper {c : Char} (h : c.isUpper = true) : c.isLower = false := by
  apply Bool.eq_false_iff.mpr
  intro hlower
  rw [not_isUpper_of_isLower hlower] at h
  cases h

/-- A break depends on what follows only through a small letter. -/
theorem startsBroken_append (before c : Char) (s : Text) {t : Text}
    (h : ∀ d ∈ t.head?, d.isLower = false) :
    startsBroken before (c :: (s ++ t)) = startsBroken before (c :: s) := by
  have hopens : opensWord (c :: (s ++ t)) = opensWord (c :: s) := by
    cases s with
    | nil =>
        cases t with
        | nil => rfl
        | cons d t =>
            change (c.isUpper && d.isLower) = false
            rw [h d rfl, Bool.and_false]
    | cons d s => rfl
  rw [startsBroken, startsBroken, hopens]

theorem breakBehind_append_underscore (before : Char) (s t : Text) :
    breakBehind before (s ++ '_' :: t) = breakBehind before s ++ '_' :: breakBehind '_' t := by
  induction s generalizing before with
  | nil => exact breakBehind_cons_of_not_isUpper before (by decide) t
  | cons c s ih =>
      have hhead : ∀ d ∈ ('_' :: t).head?, d.isLower = false := by simp
      have hsame := startsBroken_append before c s hhead
      cases hbroken : startsBroken before (c :: s) with
      | false =>
          rw [hbroken] at hsame
          rw [List.cons_append, breakBehind_of_not_startsBroken hsame,
            breakBehind_of_not_startsBroken hbroken, ih, List.cons_append]
      | true =>
          rw [hbroken] at hsame
          rw [List.cons_append, breakBehind_of_startsBroken hsame,
            breakBehind_of_startsBroken hbroken, ih, List.cons_append, List.cons_append]

/-- The parts of an identifier on both sides of an underscore of its broken form. -/
theorem exists_of_breakBehind_eq_append {before : Char} {t front back : Text}
    (h : breakBehind before t = front ++ '_' :: back) :
    ∃ s u, t = s ++ u ∧ breakBehind before s = front ∧ (∀ d ∈ u.head?, d.isLower = false) ∧
      (breakApart u).dropWhile (· == '_') = back.dropWhile (· == '_') := by
  induction t generalizing before front with
  | nil => simp [breakBehind] at h
  | cons c t ih =>
      cases hbroken : startsBroken before (c :: t) with
      | false =>
          rw [breakBehind_of_not_startsBroken hbroken] at h
          cases front with
          | nil =>
              obtain ⟨rfl, rfl⟩ := List.cons.inj h
              refine ⟨[], '_' :: t, rfl, rfl, by simp, ?_⟩
              rw [breakApart_cons]
              rfl
          | cons d front =>
              obtain ⟨rfl, htail⟩ := List.cons.inj h
              obtain ⟨s, u, rfl, hfront, hhead, hback⟩ := ih htail
              rw [startsBroken_append before c s hhead] at hbroken
              refine ⟨c :: s, u, rfl, ?_, hhead, hback⟩
              rw [breakBehind_of_not_startsBroken hbroken, hfront]
      | true =>
          have hupper := isUpper_of_startsBroken hbroken
          rw [breakBehind_of_startsBroken hbroken] at h
          rcases front with _ | ⟨mark, _ | ⟨d, front⟩⟩
          · obtain ⟨-, rfl⟩ := List.cons.inj h
            refine ⟨[], c :: t, rfl, rfl, ?_, by rw [breakApart_cons]⟩
            rintro _ ⟨⟩
            exact not_isLower_of_isUpper hupper
          · obtain ⟨-, htail⟩ := List.cons.inj h
            exact absurd (List.cons.inj htail).1 (ne_underscore_of_isUpper hupper)
          · obtain ⟨hmark, htail⟩ := List.cons.inj h
            obtain ⟨rfl, hrest⟩ := List.cons.inj htail
            obtain ⟨s, u, rfl, hfront, hhead, hback⟩ := ih hrest
            rw [startsBroken_append before c s hhead] at hbroken
            refine ⟨c :: s, u, rfl, ?_, hhead, hback⟩
            rw [breakBehind_of_startsBroken hbroken, hfront, hmark]

/-! ## Underscore forms of a part -/

/-- The underscore form of an identifier without leading underscores. -/
def underscoreForm (identifier : Text) : Text := (snakeCase identifier).dropWhile (· == '_')

theorem underscoreForm_eq (t : Text) :
    underscoreForm t = lowercase ((breakApart t).dropWhile (· == '_')) := by
  rw [underscoreForm, snakeCase_eq_lowercase_breakApart, dropWhile_lowercase]

theorem snakeCase_ne_nil {t : Text} (h : t ≠ []) : snakeCase t ≠ [] := by
  obtain ⟨c, t, rfl⟩ := List.exists_cons_of_ne_nil h
  rw [snakeCase_eq_lowercase_breakApart, breakApart_cons]
  intro hnil
  exact List.cons_ne_nil _ _ (lowercase_eq_nil_iff.mp hnil)

/-- A part that starts no word behind an underscore has the underscore form that it has alone. -/
theorem snakeCase_append_underscore (s : Text) {t : Text} (h : startsBroken '_' t = false) :
    snakeCase (s ++ '_' :: t) = snakeCase s ++ '_' :: snakeCase t := by
  have hbehind : breakBehind '_' t = breakApart t := by
    cases t with
    | nil => rfl
    | cons c t => rw [breakBehind_of_not_startsBroken h, breakApart_cons]
  calc snakeCase (s ++ '_' :: t)
      = lowercase (breakBehind '\n' (s ++ '_' :: t)) := by
        rw [breakBehind_newline, snakeCase_eq_lowercase_breakApart]
    _ = lowercase (breakApart s ++ '_' :: breakApart t) := by
        rw [breakBehind_append_underscore, breakBehind_newline, hbehind]
    _ = snakeCase s ++ '_' :: snakeCase t := by
        rw [lowercase_append_underscore, snakeCase_eq_lowercase_breakApart,
          snakeCase_eq_lowercase_breakApart]

/-- An identifier whose underscore form is cut at an underscore has a part for each piece. -/
theorem exists_of_snakeCase_eq_append {t front back : Text}
    (h : snakeCase t = front ++ '_' :: back) :
    ∃ s u, t = s ++ u ∧ snakeCase s = front ∧
      underscoreForm u = back.dropWhile (· == '_') := by
  rw [snakeCase_eq_lowercase_breakApart] at h
  obtain ⟨broken, behind, hbroken, rfl, rfl⟩ := exists_of_lowercase_eq_append h
  rw [← breakBehind_newline] at hbroken
  obtain ⟨s, u, rfl, rfl, -, hback⟩ := exists_of_breakBehind_eq_append hbroken
  refine ⟨s, u, rfl, ?_, ?_⟩
  · rw [breakBehind_newline, snakeCase_eq_lowercase_breakApart]
  · rw [underscoreForm_eq, hback, dropWhile_lowercase]

end HeaderBindings.Identifier
