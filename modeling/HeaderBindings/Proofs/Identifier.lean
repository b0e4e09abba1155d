import HeaderBindings.Identifier
import Mathlib.Data.List.TakeWhile

/-! # Breaks in an identifier

The two passes over an identifier find together the breaks that one rule finds, which looks at the
characters around a capital. What the first pass misses is a capital right behind a word it has
passed over. A small letter stands before such a capital, so the second pass finds it. -/

namespace HeaderBindings.Identifier

open List

/-- Whether an underscore goes right before a position: a capital stands there, either behind a
small letter or digit, or before a small letter and behind anything but a newline. -/
def breaksBefore (t : Text) : ℕ → Bool
  | 0 => false
  | i + 1 =>
    t[i + 1]?.any Char.isUpper &&
      (t[i]?.any isSmallOrDigit || (t[i + 2]?.any Char.isLower && t[i]?.any (· != '\n')))

/-- The text with an underscore at each break. -/
def breakApart (t : Text) : Text :=
  (t.mapIdx fun i c => if breaksBefore t i then ['_', c] else [c]).flatten

/-! ## The rule along the text -/

/-- Whether a capital and a small letter stand at the front. -/
def opensWord : Text → Bool
  | capital :: small :: _ => capital.isUpper && small.isLower
  | _ => false

/-- Breaks a text that follows the character `before`. -/
def breakBehind (before : Char) : Text → Text
  | [] => []
  | c :: rest =>
    if c.isUpper && isSmallOrDigit before || (before != '\n' && opensWord (c :: rest)) then
      '_' :: c :: breakBehind c rest
    else c :: breakBehind c rest

theorem breaksBefore_one (before c : Char) (rest : Text) :
    breaksBefore (before :: c :: rest) 1 =
      (c.isUpper && isSmallOrDigit before || (before != '\n' && opensWord (c :: rest))) := by
  cases rest with
  | nil => simp [breaksBefore, opensWord]
  | cons d rest =>
      simp only [breaksBefore, opensWord, List.getElem?_cons_succ, List.getElem?_cons_zero,
        Option.any_some]
      cases c.isUpper <;> cases d.isLower <;> simp

theorem flatten_mapIdx_breaksBefore (before : Char) (rest : Text) :
    (rest.mapIdx fun i c =>
      if breaksBefore (before :: rest) (i + 1) then ['_', c] else [c]).flatten =
        breakBehind before rest := by
  induction rest generalizing before with
  | nil => rfl
  | cons c rest ih =>
      rw [List.mapIdx_cons, List.flatten_cons, breaksBefore_one, breakBehind, ← ih c]
      split <;> rfl

theorem breakApart_cons (c : Char) (rest : Text) :
    breakApart (c :: rest) = c :: breakBehind c rest := by
  rw [breakApart, List.mapIdx_cons, List.flatten_cons, flatten_mapIdx_breaksBefore]
  rfl

/-- Behind a capital a word goes on with the small letters that follow. -/
theorem opensWord_cons (c : Char) (rest : Text) :
    opensWord (c :: rest) = (c.isUpper && !(rest.takeWhile Char.isLower).isEmpty) := by
  cases rest with
  | nil => exact (Bool.and_false _).symm
  | cons d rest =>
      rw [opensWord, List.takeWhile_cons]
      cases d.isLower <;> rfl

theorem breakBehind_cons_of_not_isUpper (before : Char) {c : Char} (h : c.isUpper = false)
    (rest : Text) : breakBehind before (c :: rest) = c :: breakBehind c rest := by
  rw [breakBehind, opensWord_cons, h, Bool.false_and, Bool.false_and, Bool.and_false]
  rfl

/-! ## The second pass behind the first -/

theorem not_isUpper_of_isLower {c : Char} (h : c.isLower = true) : c.isUpper = false := by
  rw [Bool.eq_false_iff]
  intro hupper
  delta Char.isLower at h
  delta Char.isUpper at hupper
  simp only [Bool.and_eq_true, decide_eq_true_eq, ge_iff_le, UInt32.le_iff_toNat_le] at h hupper
  have hapart : 'Z'.val.toNat < 'a'.val.toNat := by decide
  omega

theorem breakBeforeCapitals_cons_of_not_isSmallOrDigit {before : Char}
    (h : isSmallOrDigit before = false) (rest : Text) :
    breakBeforeCapitals (before :: rest) = before :: breakBeforeCapitals rest := by
  cases rest with
  | nil => rfl
  | cons c rest =>
      rw [breakBeforeCapitals, h, Bool.false_and]
      rfl

theorem breakBeforeCapitals_cons_of_not_isUpper (before : Char) {c : Char}
    (h : c.isUpper = false) (rest : Text) :
    breakBeforeCapitals (before :: c :: rest) = before :: breakBeforeCapitals (c :: rest) := by
  rw [breakBeforeCapitals, h, Bool.and_false]
  rfl

/-- The second pass finds all breaks before a character, if the rule finds one before a word only
where a small letter or digit stands. -/
theorem breakBeforeCapitals_cons {before c : Char} {rest broken : Text}
    (hbefore : before ≠ '\n' → opensWord (c :: rest) = true → isSmallOrDigit before = true)
    (h : breakBeforeCapitals (c :: broken) = c :: breakBehind c rest) :
    breakBeforeCapitals (before :: c :: broken) = before :: breakBehind before (c :: rest) := by
  have hrule : (c.isUpper && isSmallOrDigit before || (before != '\n' && opensWord (c :: rest))) =
      (isSmallOrDigit before && c.isUpper) := by
    rw [Bool.eq_iff_iff, Bool.or_eq_true, Bool.and_eq_true, Bool.and_eq_true, Bool.and_eq_true,
      bne_iff_ne]
    constructor
    · rintro (⟨hupper, hsmall⟩ | ⟨hne, hopens⟩)
      · exact ⟨hsmall, hupper⟩
      · have hupper := hopens
        rw [opensWord_cons, Bool.and_eq_true] at hupper
        exact ⟨hbefore hne hopens, hupper.1⟩
    · rintro ⟨hsmall, hupper⟩
      exact Or.inl ⟨hupper, hsmall⟩
  rw [breakBeforeCapitals, breakBehind, hrule, h]
  split <;> rfl

/-- Neither the second pass nor the rule breaks inside a word of small letters. -/
theorem breakBeforeCapitals_word {word rest broken : Text} (hne : word ≠ [])
    (hword : ∀ c ∈ word, c.isLower = true)
    (h : ∀ last : Char, last.isLower = true →
      breakBeforeCapitals (last :: broken) = last :: breakBehind last rest) (before : Char) :
    breakBeforeCapitals (before :: (word ++ broken)) =
      before :: breakBehind before (word ++ rest) := by
  induction word generalizing before with
  | nil => exact absurd rfl hne
  | cons c word ih =>
      have hc : c.isLower = true := hword c List.mem_cons_self
      have hnot := not_isUpper_of_isLower hc
      rw [List.cons_append, List.cons_append, breakBeforeCapitals_cons_of_not_isUpper before hnot,
        breakBehind_cons_of_not_isUpper before hnot]
      refine congrArg (before :: ·) ?_
      cases word with
      | nil => exact h c hc
      | cons d word =>
          exact ih (List.cons_ne_nil d word) (fun e he => hword e (List.mem_cons_of_mem c he)) c

/-- Both passes find behind a character the breaks of the rule, unless the character is one that
the first pass could have taken to break before a word. -/
theorem breakBeforeCapitals_cons_breakBeforeWords {before : Char} {t : Text}
    (hbefore : before ≠ '\n' → opensWord t = true → isSmallOrDigit before = true) :
    breakBeforeCapitals (before :: breakBeforeWords t) = before :: breakBehind before t := by
  fun_induction breakBeforeWords t generalizing before with
  | case1 => rfl
  | case2 c => exact breakBeforeCapitals_cons hbefore rfl
  | case3 c capital rest word hmatch =>
      rename_i ih
      have hafter (last : Char) (hlast : last.isLower = true) :=
        @ih last fun _ _ => by rw [isSmallOrDigit, hlast, Bool.true_or]
      have hopens : (c != '\n' && opensWord (capital :: rest)) = true := by
        rw [opensWord_cons, ← Bool.and_assoc]
        exact hmatch
      have hne : word ≠ [] := by
        rintro hnil
        rw [hnil] at hmatch
        simp at hmatch
      have hword : ∀ d ∈ word, d.isLower = true := fun d => List.mem_takeWhile_imp
      refine breakBeforeCapitals_cons hbefore ?_
      calc breakBeforeCapitals (c :: '_' :: capital ::
            (word ++ breakBeforeWords (rest.dropWhile Char.isLower)))
          = c :: '_' :: breakBeforeCapitals (capital ::
              (word ++ breakBeforeWords (rest.dropWhile Char.isLower))) := by
            rw [breakBeforeCapitals_cons_of_not_isUpper c (by decide),
              breakBeforeCapitals_cons_of_not_isSmallOrDigit (by decide)]
        _ = c :: '_' :: capital :: breakBehind capital (word ++ rest.dropWhile Char.isLower) := by
            rw [breakBeforeCapitals_word hne hword hafter]
        _ = c :: breakBehind c (capital :: rest) := by
            rw [List.takeWhile_append_dropWhile, breakBehind, hopens, Bool.or_true, if_pos rfl]
  | case4 c capital rest word hmatch =>
      rename_i ih
      refine breakBeforeCapitals_cons hbefore (ih ?_)
      intro hne hopens
      refine absurd ?_ hmatch
      rw [opensWord_cons] at hopens
      rw [Bool.and_assoc, hopens, Bool.and_true]
      exact bne_iff_ne.mpr hne

/-- Nothing is broken behind a newline, so a text is read as if one stood before it. -/
theorem breakBehind_newline (t : Text) : breakBehind '\n' t = breakApart t := by
  cases t with
  | nil => rfl
  | cons c rest =>
      have hsmall : isSmallOrDigit '\n' = false := by decide
      rw [breakApart_cons, breakBehind, hsmall, bne_self_eq_false, Bool.and_false, Bool.false_and]
      rfl

/-- The breaks of both passes are the breaks of the rule. -/
theorem breakBeforeCapitals_breakBeforeWords (t : Text) :
    breakBeforeCapitals (breakBeforeWords t) = breakApart t := by
  have hboth := @breakBeforeCapitals_cons_breakBeforeWords '\n' t
    fun hne => absurd rfl hne
  rw [breakBeforeCapitals_cons_of_not_isSmallOrDigit (by decide), breakBehind_newline] at hboth
  exact (List.cons.inj hboth).2

/-- An identifier is broken at the capitals that the rule names and put in lower case. -/
theorem snakeCase_eq_lowercase_breakApart (identifier : Text) :
    snakeCase identifier = Text.lowercase (breakApart identifier) :=
  congrArg Text.lowercase (breakBeforeCapitals_breakBeforeWords identifier)

theorem snakeCase_nil : snakeCase [] = [] := by
  rw [snakeCase_eq_lowercase_breakApart]
  rfl

/-- The first pass finds the break before `Cd`, the second one that before `Ef`. -/
example : breakApart "AbCdEf".toList = "Ab_Cd_Ef".toList := by decide

end HeaderBindings.Identifier
