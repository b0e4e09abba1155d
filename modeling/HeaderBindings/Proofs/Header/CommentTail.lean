import HeaderBindings.Proofs.Header.Comment
import HeaderBindings.Proofs.Header.OutsideComments

/-! # Removing comments twice

The removal of comments goes through a text up to a block comment that is never closed, or to the
end. In what it leaves before this place no comment starts, not even where a character stands next
to the blanks of a comment, so a second removal stops at the same place and changes nothing. -/

namespace HeaderBindings.Header

open List Text

/-! ## Places where the removal stops -/

/-- The text ends here, or a block comment starts that is never closed. -/
inductive NothingToRemove : Text → Prop
  | done : NothingToRemove []
  | unclosed {rest : Text} (h : ¬ ['*', '/'] <:+: rest) : NothingToRemove ('/' :: '*' :: rest)

theorem splitAtCommentEnd?_eq_none {t : Text} (h : ¬ ['*', '/'] <:+: t) :
    splitAtCommentEnd? t = none := by
  cases hend : splitAtCommentEnd? t with
  | none => rfl
  | some parts =>
      obtain ⟨comment, after⟩ := parts
      obtain ⟨rfl, -⟩ := eq_append_of_splitAtCommentEnd? hend
      exact absurd ⟨comment, after, by simp⟩ h

theorem NothingToRemove.blankComments_eq {tail : Text} (h : NothingToRemove tail) :
    blankComments tail = tail := by
  cases h with
  | done => rw [blankComments]
  | unclosed h => rw [blankComments, splitAtCommentEnd?_eq_none h]

/-- The removal of comments turns `before` into `front`, and stops before `tail`. -/
structure StopsBefore (before front tail : Text) : Prop where
  size_eq : size front = size before
  /-- No comment starts in the front, not even with the first character behind it. -/
  commentFree : CommentFree (front ++ tail.take 1)
  nothingToRemove : NothingToRemove tail

theorem head?_append_take_one (s t : Text) : (s ++ t.take 1).head? = (s ++ t).head? := by
  rw [List.head?_append, List.head?_append]
  cases t <;> rfl

theorem commentFree_cons_iff {c : Char} {t : Text} :
    CommentFree (c :: t) ↔ (c = '/' → ∀ d ∈ t.head?, d ≠ '/' ∧ d ≠ '*') ∧ CommentFree t := by
  rw [commentFree_iff_isChain, commentFree_iff_isChain, List.isChain_cons]
  exact and_congr_left' ⟨fun h hc d hd => h d hd hc, fun h d hd hc => h hc d hd⟩

/-- Text without comments is passed. -/
theorem blankComments_append {front tail : Text} (h : CommentFree (front ++ tail.take 1)) :
    blankComments (front ++ tail) = front ++ blankComments tail := by
  induction front with
  | nil => rfl
  | cons c front ih =>
      rw [List.cons_append, commentFree_cons_iff, head?_append_take_one] at h
      obtain ⟨hc, hfront⟩ := h
      rw [List.cons_append, blankComments, ih hfront, List.cons_append]
      · intro rest hslash hrest
        exact (hc hslash '/' (by rw [hrest]; rfl)).1 rfl
      · intro rest hslash hrest
        exact (hc hslash '*' (by rw [hrest]; rfl)).2 rfl

theorem StopsBefore.blankComments_eq {before front tail : Text}
    (h : StopsBefore before front tail) :
    blankComments (front ++ tail) = front ++ tail := by
  rw [blankComments_append h.commentFree, h.nothingToRemove.blankComments_eq]

/-! ## What the removal leaves -/

theorem slash_not_mem_blankOut (comment : Text) : '/' ∉ blankOut comment := by
  intro hmem
  exact absurd (isBlank_of_mem_blankOut '/' hmem) (by decide)

/-- A comment is passed, and no comment starts in the blanks in its place. -/
theorem StopsBefore.behind_comment {before front tail : Text} (comment : Text)
    (h : StopsBefore before front tail) :
    StopsBefore (comment ++ before) (blankOut comment ++ front) tail where
  size_eq := by rw [size_append, size_append, size_blankOut, h.size_eq]
  commentFree := by
    have hslash := slash_not_mem_blankOut comment
    rw [List.append_assoc]
    refine (commentFree_of_not_mem hslash).append h.commentFree fun hlast => ?_
    exact absurd (List.mem_of_getLast? hlast) hslash
  nothingToRemove := h.nothingToRemove

theorem head?_blankComments (t : Text) :
    (blankComments t).head? = t.head? ∨ (blankComments t).head? = some ' ' := by
  induction t using blankComments.induct with
  | case1 => exact .inl (by rw [blankComments])
  | case2 rest => exact .inr (by rw [blankComments]; rfl)
  | case3 rest comment after hend => exact .inr (by rw [blankComments, hend]; rfl)
  | case4 rest hend => exact .inl (by rw [blankComments, hend])
  | case5 c rest hline hblock => exact .inl (by rw [blankComments.eq_4 c rest hline hblock]; rfl)

/-- The removal goes through every text up to some place. -/
theorem exists_stopsBefore (t : Text) :
    ∃ before front tail, t = before ++ tail ∧ blankComments t = front ++ tail ∧
      StopsBefore before front tail := by
  induction t using blankComments.induct with
  | case1 => exact ⟨[], [], [], rfl, by rw [blankComments]; rfl, rfl, commentFree_nil, .done⟩
  | case2 rest ih =>
      obtain ⟨before, front, tail, hrest, hblanked, hstops⟩ := ih
      refine ⟨_, _, tail, ?_, ?_,
        hstops.behind_comment ('/' :: '/' :: rest.takeWhile (· != '\n'))⟩
      · rw [List.append_assoc, ← hrest, List.cons_append, List.cons_append,
          List.takeWhile_append_dropWhile]
      · rw [blankComments_line, hblanked, List.append_assoc]
  | case3 rest comment after hend ih =>
      obtain ⟨before, front, tail, rfl, hblanked, hstops⟩ := ih
      refine ⟨_, _, tail, ?_, ?_, hstops.behind_comment ('/' :: '*' :: (comment ++ ['*', '/']))⟩
      · rw [(eq_append_of_splitAtCommentEnd? hend).1]
        simp
      · rw [blankComments_block hend, hblanked, List.append_assoc]
  | case4 rest hend =>
      refine ⟨[], [], '/' :: '*' :: rest, rfl, by rw [blankComments, hend]; rfl, rfl, ?_, ?_⟩
      · exact commentFree_singleton '/'
      · exact .unclosed (not_infix_of_splitAtCommentEnd? hend)
  | case5 c rest hline hblock ih =>
      obtain ⟨before, front, tail, hrest, hblanked, hsize, hfree, htail⟩ := ih
      refine ⟨c :: before, c :: front, tail, by rw [hrest]; rfl, ?_, ?_, ?_, htail⟩
      · rw [blankComments.eq_4 c rest hline hblock, hblanked]
        rfl
      · rw [size_cons, size_cons, hsize]
      · rw [List.cons_append, commentFree_cons_iff, head?_append_take_one, ← hblanked]
        refine ⟨fun hc d hd => ?_, hfree⟩
        rcases head?_blankComments rest with hhead | hhead
        · rw [hhead] at hd
          obtain ⟨behind, rfl⟩ := List.head?_eq_some_iff.mp hd
          constructor
          · rintro rfl
            exact hline behind hc rfl
          · rintro rfl
            exact hblock behind hc rfl
        · rw [hhead] at hd
          cases hd
          decide

/-- Comments that were removed once are removed for good: a second removal stops where the first
one does, and changes nothing. -/
theorem blankComments_blankComments (t : Text) :
    blankComments (blankComments t) = blankComments t ∧
      ∃ before front tail, t = before ++ tail ∧ blankComments t = front ++ tail ∧
        StopsBefore before front tail := by
  obtain ⟨before, front, tail, ht, hblanked, hstops⟩ := exists_stopsBefore t
  refine ⟨?_, before, front, tail, ht, hblanked, hstops⟩
  rw [hblanked, hstops.blankComments_eq]

/-- Behind the mark that is never closed a line comment and a second mark stay. -/
example : blankComments "/*a*/ b//c\n /* // d\n /* e".toList =
    "      b   \n /* // d\n /* e".toList := by decide +kernel

end HeaderBindings.Header
