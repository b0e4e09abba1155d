import HeaderBindings.Text.Basic

/-! Comment removal. Comments are blanked rather than cut out, so every offset of the stripped
text is the same offset of the text as written. -/

namespace HeaderBindings.Header

/-- One blank for each byte of a character; a newline stays. -/
def blankChar (c : Char) : Text :=
  if c = '\n' then ['\n'] else List.replicate c.utf8Size ' '

/-- A comment as blanks of the same length, with its newlines. -/
def blankOut (comment : Text) : Text := comment.flatMap blankChar

/-- What stands before and after the first end mark of a block comment. -/
def splitAtCommentEnd? : Text → Option (Text × Text)
  | '*' :: '/' :: rest => some ([], rest)
  | c :: rest => (splitAtCommentEnd? rest).map fun (comment, after) => (c :: comment, after)
  | [] => none

theorem length_of_splitAtCommentEnd? {t comment after : Text}
    (h : splitAtCommentEnd? t = some (comment, after)) :
    comment.length + after.length + 2 = t.length := by
  induction t using splitAtCommentEnd?.induct generalizing comment with
  | case1 rest =>
      simp only [splitAtCommentEnd?, Option.some.injEq, Prod.mk.injEq] at h
      obtain ⟨rfl, rfl⟩ := h
      simp
  | case2 c rest hne ih =>
      rw [splitAtCommentEnd?] at h
      · simp only [Option.map_eq_some_iff, Prod.mk.injEq, Prod.exists] at h
        obtain ⟨inner, after', hrest, rfl, rfl⟩ := h
        have := ih hrest
        simp only [List.length_cons]
        omega
      · exact hne
  | case3 => simp [splitAtCommentEnd?] at h

/-- Blanks every line comment, which ends before the next newline, and every block comment. From
a block comment without an end on, the text is left as it is. -/
def blankComments : Text → Text
  | [] => []
  | '/' :: '/' :: rest =>
    ' ' :: ' ' :: (blankOut (rest.takeWhile (· != '\n')) ++
      blankComments (rest.dropWhile (· != '\n')))
  | '/' :: '*' :: rest =>
    match _hend : splitAtCommentEnd? rest with
    | some (comment, after) =>
      ' ' :: ' ' :: (blankOut comment ++ (' ' :: ' ' :: blankComments after))
    | none => '/' :: '*' :: rest
  | c :: rest => c :: blankComments rest
termination_by t => t.length
decreasing_by
  · have : (rest.dropWhile (· != '\n')).length ≤ rest.length :=
      (List.dropWhile_suffix _).length_le
    simp only [List.length_cons]
    omega
  · have := length_of_splitAtCommentEnd? _hend
    simp only [List.length_cons]
    omega
  · simp

end HeaderBindings.Header
