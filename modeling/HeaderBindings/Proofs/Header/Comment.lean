import HeaderBindings.Header.Comment
import Mathlib.Data.List.Chain

/-! # Text without comments

Comment removal leaves a text alone in which no comment starts. -/

namespace HeaderBindings.Header

open List

/-- Neither mark that starts a comment occurs. -/
structure CommentFree (t : Text) : Prop where
  no_line : ¬ ['/', '/'] <:+: t
  no_block : ¬ ['/', '*'] <:+: t

theorem commentFree_iff_isChain {t : Text} :
    CommentFree t ↔ t.IsChain fun a b => a = '/' → b ≠ '/' ∧ b ≠ '*' := by
  rw [List.isChain_iff_forall_rel_of_append_cons_cons]
  constructor
  · intro h a b front back ht ha
    subst ha
    constructor
    · rintro rfl
      exact h.no_line ⟨front, back, by simp [ht]⟩
    · rintro rfl
      exact h.no_block ⟨front, back, by simp [ht]⟩
  · intro h
    refine ⟨?_, ?_⟩
    · rintro ⟨front, back, rfl⟩
      exact (@h '/' '/' front back (by simp) rfl).1 rfl
    · rintro ⟨front, back, rfl⟩
      exact (@h '/' '*' front back (by simp) rfl).2 rfl

theorem commentFree_nil : CommentFree [] :=
  commentFree_iff_isChain.mpr List.isChain_nil

theorem commentFree_singleton (c : Char) : CommentFree [c] :=
  commentFree_iff_isChain.mpr (List.isChain_singleton c)

theorem CommentFree.tail {c : Char} {t : Text} (h : CommentFree (c :: t)) : CommentFree t :=
  commentFree_iff_isChain.mpr (commentFree_iff_isChain.mp h).tail

theorem commentFree_of_not_mem {t : Text} (h : '/' ∉ t) : CommentFree t := by
  refine ⟨?_, ?_⟩
  · intro hmark
    exact h (hmark.subset (by simp))
  · intro hmark
    exact h (hmark.subset (by simp))

/-- Texts are joined without a comment, if the second does not go on where a slash ends the
first. -/
theorem CommentFree.append {s t : Text} (hs : CommentFree s) (ht : CommentFree t)
    (h : '/' ∈ s.getLast? → ∀ c ∈ t.head?, c ≠ '/' ∧ c ≠ '*') : CommentFree (s ++ t) := by
  rw [commentFree_iff_isChain] at hs ht ⊢
  refine List.isChain_append.mpr ⟨hs, ht, ?_⟩
  rintro a ha b hb rfl
  exact h ha b hb

theorem CommentFree.append_blank {s t : Text} (hs : CommentFree s) (ht : CommentFree t) :
    CommentFree (s ++ ' ' :: t) :=
  hs.append ((commentFree_singleton ' ').append ht fun hslash => by simp at hslash)
    fun _ c hc => by
      rw [← Option.some.inj hc]
      decide

theorem CommentFree.flatMap {α : Type} {l : List α} {f : α → Text}
    (h : ∀ a ∈ l, CommentFree (f a)) (hlast : ∀ a ∈ l, '/' ∉ (f a).getLast?) :
    CommentFree (l.flatMap f) := by
  induction l with
  | nil => exact commentFree_nil
  | cons a l ih =>
      rw [List.flatMap_cons]
      refine (h a (by simp)).append
        (ih (fun b hb => h b (by simp [hb])) fun b hb => hlast b (by simp [hb])) ?_
      intro hslash
      exact absurd hslash (hlast a (by simp))

theorem blankComments_of_commentFree {t : Text} (h : CommentFree t) : blankComments t = t := by
  induction t using blankComments.induct with
  | case1 => rw [blankComments]
  | case2 rest ih => exact absurd ⟨[], rest, by simp⟩ h.no_line
  | case3 rest comment after hend ih => exact absurd ⟨[], rest, by simp⟩ h.no_block
  | case4 rest hend => exact absurd ⟨[], rest, by simp⟩ h.no_block
  | case5 c rest hline hblock ih =>
      rw [blankComments, ih h.tail]
      · exact hline
      · exact hblock

end HeaderBindings.Header
