import HeaderBindings.Proofs.Header.TopLevelParts

/-! # Splitting loses nothing

The parts of a text between the separators outside of all brackets give back the text. There is one
part more than there are such separators, and no part is split any further. This holds of every
text, whether its brackets match or not. -/

namespace HeaderBindings.Header

open List Text

variable {separator : Char} {t : Text} {parts : List Text}

/-! ## Counting separators -/

/-- The positions at which the separator stands outside of all brackets, if `depth` brackets are
open before the text. -/
def positionsOutside (separator : Char) (depth : ℕ) (t : Text) : List ℕ :=
  (List.range t.length).filter fun i =>
    t[i]? = some separator ∧ (t.take i).foldl bracketDepthAfter depth = 0

theorem length_positionsOutside_cons (separator c : Char) (depth : ℕ) (t : Text) :
    (positionsOutside separator depth (c :: t)).length =
      (if c = separator ∧ depth = 0 then 1 else 0) +
        (positionsOutside separator (bracketDepthAfter depth c) t).length := by
  have hlater : (fun i => decide ((c :: t)[i]? = some separator ∧
        ((c :: t).take i).foldl bracketDepthAfter depth = 0)) ∘ Nat.succ =
      fun i => decide (t[i]? = some separator ∧
        (t.take i).foldl bracketDepthAfter (bracketDepthAfter depth c) = 0) := rfl
  rw [positionsOutside, List.length_cons, List.range_succ_eq_map, List.filter_cons,
    List.filter_map, hlater, positionsOutside]
  simp only [List.getElem?_cons_zero, Option.some.injEq, List.take_zero, List.foldl_nil,
    decide_eq_true_eq]
  split
  · rw [List.length_cons, List.length_map, Nat.add_comm]
  · rw [List.length_map, Nat.zero_add]

/-- There is one part more than there are separators outside of brackets. -/
theorem length_splitOutsideBrackets (hseparator : isBracket separator = false) (depth : ℕ)
    (t : Text) :
    (splitOutsideBrackets separator depth t).length =
      (positionsOutside separator depth t).length + 1 := by
  induction t generalizing depth with
  | nil => rfl
  | cons c t ih =>
      rw [length_positionsOutside_cons]
      by_cases hc : c = separator ∧ depth = 0
      · obtain ⟨rfl, rfl⟩ := hc
        rw [if_pos ⟨rfl, rfl⟩, bracketDepthAfter_of_not_isBracket hseparator, splitOutsideBrackets,
          if_pos (by simp [hseparator]), List.length_cons, ih, Nat.add_comm 1]
      · rw [if_neg hc, Nat.zero_add, splitOutsideBrackets_cons fun h => hc h.2,
          List.length_modifyHead, ih]

/-! ## Parts -/

namespace TopLevelParts

theorem ne_nil (h : TopLevelParts separator t parts) : parts ≠ [] := by
  cases h <;> exact List.cons_ne_nil _ _

/-- Joining the parts with the separator gives back the text. -/
theorem intercalate_eq (h : TopLevelParts separator t parts) :
    [separator].intercalate parts = t := by
  induction h with
  | last => exact List.intercalate_singleton
  | cons _ _ hrest ih =>
      rw [List.intercalate_cons_of_ne_nil hrest.ne_nil, ih, List.append_assoc]
      rfl

theorem nests_of_mem (h : TopLevelParts separator t parts) :
    ∀ part ∈ parts, Nests bracketDepthAfter [separator] 0 part := by
  induction h with
  | last hlast => exact List.forall_mem_singleton.mpr hlast
  | cons hfirst _ _ ih => exact List.forall_mem_cons.mpr ⟨hfirst, ih⟩

end TopLevelParts

/-- Nothing of a text is lost between its parts, and all separators outside of brackets have been
used. -/
structure SplitsExactly (separator : Char) (t : Text) (parts : List Text) : Prop where
  joined : [separator].intercalate parts = t
  length_eq : parts.length = (positionsOutside separator 0 t).length + 1
  whole : ∀ part ∈ parts, splitTopLevel separator part = [part]

/-- Every text is split exactly at a separator that is no bracket, even if its brackets are not
balanced or close in the wrong order. -/
theorem splitsExactly_splitTopLevel (h : isBracket separator = false) (t : Text) :
    SplitsExactly separator t (splitTopLevel separator t) := by
  have hparts : TopLevelParts separator t (splitTopLevel separator t) :=
    (topLevelParts_iff h).mpr rfl
  refine ⟨hparts.intercalate_eq, length_splitOutsideBrackets h 0 t, fun part hpart => ?_⟩
  exact splitOutsideBrackets_of_nests (hparts.nests_of_mem part hpart)

/-- A parenthesis that closes nothing does not count, one that is closed by a square bracket does,
and behind a brace that is never closed the separator is nested. -/
theorem splitsExactly_of_unbalanced :
    let t : Text := "é) × f(ü × b] × \x7bß × c"
    splitTopLevel '×' t = ["é) ", " f(ü × b] ", " \x7bß × c"].map String.toList ∧
      isBracket '×' = false ∧ SplitsExactly '×' t (splitTopLevel '×' t) := by
  intro t
  have hseparator : isBracket '×' = false := by decide
  exact ⟨by decide +kernel, hseparator, splitsExactly_splitTopLevel hseparator t⟩

end HeaderBindings.Header
