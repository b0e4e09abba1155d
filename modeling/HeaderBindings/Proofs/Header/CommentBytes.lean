import HeaderBindings.Proofs.ByteOrder
import HeaderBindings.Proofs.Header.OutsideComments

/-! # Comments byte by byte

A lexer that reads the bytes of a text from left to right says which of them are part of a comment.
The text without comments has the bytes of the text, with a blank for each byte of a comment that
is no newline. -/

namespace HeaderBindings.Header

open List Text

/-- What a lexer is in when it comes to a byte. -/
inductive Lexing where
  | code
  | lineComment
  | blockComment

/-- Whether a block comment ends somewhere in the bytes. -/
def closesComment : List UInt8 → Bool
  | 0x2A :: 0x2F :: _ => true
  | _ :: rest => closesComment rest
  | [] => false

/-- Says for each byte whether it is part of a comment. Two slashes open a comment up to the next
newline, a slash and a star one through the first star and slash behind them. Where these do not
follow, no comment is opened and none is looked for any more. -/
def commentMarks : Lexing → List UInt8 → List Bool
  | _, [] => []
  | .code, 0x2F :: 0x2F :: rest => true :: true :: commentMarks .lineComment rest
  | .code, 0x2F :: 0x2A :: rest =>
    if closesComment rest then true :: true :: commentMarks .blockComment rest
    else false :: false :: rest.map fun _ => false
  | .code, _ :: rest => false :: commentMarks .code rest
  | .lineComment, 0x0A :: rest => false :: commentMarks .code rest
  | .lineComment, _ :: rest => true :: commentMarks .lineComment rest
  | .blockComment, 0x2A :: 0x2F :: rest => true :: true :: commentMarks .code rest
  | .blockComment, _ :: rest => true :: commentMarks .blockComment rest

/-- A byte of a comment becomes a blank, unless it is a newline. -/
def blankByte (marked : Bool) (b : UInt8) : UInt8 :=
  if marked = true ∧ b ≠ 0x0A then 0x20 else b

/-! ## Bytes of marks -/

/-- The byte of an ASCII character is no part of another character. -/
theorem ofNat_toNat_mem_utf8EncodeChar_iff {a c : Char} (ha : a.toNat < 128) :
    UInt8.ofNat a.toNat ∈ String.utf8EncodeChar c ↔ c = a := by
  have heq : c = a ↔ c.val.toNat = a.toNat := by
    rw [← Char.toNat_inj]
    rfl
  rw [heq, String.utf8EncodeChar]
  split_ifs <;>
    simp only [List.mem_cons, List.not_mem_nil, or_false, ← UInt8.toNat_inj, UInt8.toNat_ofNat'] <;>
    omega

theorem slash_mem_utf8EncodeChar_iff {c : Char} :
    0x2F ∈ String.utf8EncodeChar c ↔ c = '/' :=
  @ofNat_toNat_mem_utf8EncodeChar_iff '/' c (by decide)

theorem star_mem_utf8EncodeChar_iff {c : Char} :
    0x2A ∈ String.utf8EncodeChar c ↔ c = '*' :=
  @ofNat_toNat_mem_utf8EncodeChar_iff '*' c (by decide)

theorem newline_mem_utf8EncodeChar_iff {c : Char} :
    0x0A ∈ String.utf8EncodeChar c ↔ c = '\n' :=
  @ofNat_toNat_mem_utf8EncodeChar_iff '\n' c (by decide)

/-- A text whose bytes start with that of an ASCII character starts with the character. -/
theorem exists_eq_cons_of_bytes {a : Char} (ha : a.toNat < 128) {t : Text} {bs : List UInt8}
    (h : bytes t = UInt8.ofNat a.toNat :: bs) : ∃ rest, t = a :: rest := by
  cases t with
  | nil => cases h
  | cons c rest =>
      obtain ⟨b, tail, hc⟩ := List.exists_cons_of_ne_nil (String.utf8EncodeChar_ne_nil (c := c))
      rw [bytes_cons, hc] at h
      obtain ⟨rfl, -⟩ := List.cons.inj h
      have hmem : UInt8.ofNat a.toNat ∈ String.utf8EncodeChar c := by simp [hc]
      exact ⟨rest, by rw [(ofNat_toNat_mem_utf8EncodeChar_iff ha).mp hmem]⟩

/-! ## Marks of characters -/

/-- Whether the bytes of a state are part of a comment. -/
def Lexing.marked : Lexing → Bool
  | .code => false
  | .lineComment | .blockComment => true

/-- The byte without which a lexer stays in its state. -/
def Lexing.turn : Lexing → UInt8
  | .code => 0x2F
  | .lineComment => 0x0A
  | .blockComment => 0x2A

theorem commentMarks_cons_of_ne {state : Lexing} {b : UInt8} (h : b ≠ state.turn)
    (bs : List UInt8) :
    commentMarks state (b :: bs) = state.marked :: commentMarks state bs := by
  cases state with
  | code => exact commentMarks.eq_4 b bs (fun _ hb => absurd hb h) (fun _ hb => absurd hb h)
  | lineComment => exact commentMarks.eq_6 b bs h
  | blockComment => exact commentMarks.eq_8 b bs fun _ hb => absurd hb h

theorem commentMarks_append {state : Lexing} {run : List UInt8} (h : state.turn ∉ run)
    (bs : List UInt8) :
    commentMarks state (run ++ bs) = run.map (fun _ => state.marked) ++ commentMarks state bs := by
  induction run with
  | nil => rfl
  | cons b run ih =>
      have hb : b ≠ state.turn := fun heq => h (heq ▸ List.mem_cons_self)
      rw [List.cons_append, commentMarks_cons_of_ne hb,
        ih fun hmem => h (List.mem_cons_of_mem b hmem)]
      rfl

theorem commentMarks_code {c : Char} {rest : Text}
    (hline : ∀ tail, c = '/' → rest = '/' :: tail → False)
    (hblock : ∀ tail, c = '/' → rest = '*' :: tail → False) :
    commentMarks .code (bytes (c :: rest)) =
      (String.utf8EncodeChar c).map (fun _ => false) ++ commentMarks .code (bytes rest) := by
  by_cases hc : c = '/'
  · subst hc
    refine commentMarks.eq_4 0x2F (bytes rest) ?_ ?_
    · intro tail _ htail
      obtain ⟨behind, rfl⟩ := exists_eq_cons_of_bytes (a := '/') (by decide) htail
      exact hline behind rfl rfl
    · intro tail _ htail
      obtain ⟨behind, rfl⟩ := exists_eq_cons_of_bytes (a := '*') (by decide) htail
      exact hblock behind rfl rfl
  · have hturn : Lexing.code.turn ∉ String.utf8EncodeChar c :=
      slash_mem_utf8EncodeChar_iff.not.mpr hc
    rw [bytes_cons, commentMarks_append hturn]
    rfl

theorem commentMarks_line (rest : Text) :
    commentMarks .lineComment (bytes rest) =
      (bytes (rest.takeWhile (· != '\n'))).map (fun _ => true) ++
        commentMarks .code (bytes (rest.dropWhile (· != '\n'))) := by
  have hturn : Lexing.lineComment.turn ∉ bytes (rest.takeWhile (· != '\n')) := by
    intro hmem
    obtain ⟨c, hc, hbyte⟩ := List.mem_flatMap.mp hmem
    have hnot := List.mem_takeWhile_imp hc
    rw [newline_mem_utf8EncodeChar_iff.mp hbyte] at hnot
    exact absurd hnot (by decide)
  have hend : commentMarks .lineComment (bytes (rest.dropWhile (· != '\n'))) =
      commentMarks .code (bytes (rest.dropWhile (· != '\n'))) := by
    cases hdrop : rest.dropWhile (· != '\n') with
    | nil => rfl
    | cons c behind =>
        have hc : (c != '\n') = false :=
          @eq_false_of_mem_head?_dropWhile (· != '\n') rest c (by rw [hdrop]; rfl)
        obtain rfl : c = '\n' := by simpa using hc
        rfl
  conv_lhs => rw [← List.takeWhile_append_dropWhile (p := (· != '\n')) (l := rest)]
  rw [bytes_append, commentMarks_append hturn, hend]
  rfl

theorem commentMarks_block {rest comment after : Text}
    (h : splitAtCommentEnd? rest = some (comment, after)) :
    commentMarks .blockComment (bytes rest) =
      (bytes (comment ++ ['*', '/'])).map (fun _ => true) ++ commentMarks .code (bytes after) := by
  induction rest using splitAtCommentEnd?.induct generalizing comment with
  | case1 rest =>
      cases h
      rfl
  | case2 c rest hne ih =>
      rw [splitAtCommentEnd?.eq_2 _ _ hne] at h
      obtain ⟨⟨inner, behind⟩, hinner, heq⟩ := Option.map_eq_some_iff.mp h
      cases heq
      have hchar : commentMarks .blockComment (bytes (c :: rest)) =
          (String.utf8EncodeChar c).map (fun _ => true) ++
            commentMarks .blockComment (bytes rest) := by
        by_cases hc : c = '*'
        · subst hc
          refine commentMarks.eq_8 0x2A (bytes rest) ?_
          intro tail _ htail
          obtain ⟨behind, rfl⟩ := exists_eq_cons_of_bytes (a := '/') (by decide) htail
          exact hne behind rfl rfl
        · have hturn : Lexing.blockComment.turn ∉ String.utf8EncodeChar c :=
            star_mem_utf8EncodeChar_iff.not.mpr hc
          rw [bytes_cons, commentMarks_append hturn]
          rfl
      rw [hchar, ih hinner, ← List.append_assoc, ← List.map_append, ← bytes_cons]
      rfl
  | case3 => cases h

theorem closesComment_append {run : List UInt8} (h : 0x2A ∉ run) (bs : List UInt8) :
    closesComment (run ++ bs) = closesComment bs := by
  induction run with
  | nil => rfl
  | cons b run ih =>
      rw [List.cons_append, closesComment.eq_2, ih fun hmem => h (List.mem_cons_of_mem b hmem)]
      rintro _ rfl
      exact absurd List.mem_cons_self h

/-- The bytes close a block comment if and only if the text does. -/
theorem closesComment_bytes (rest : Text) :
    closesComment (bytes rest) = (splitAtCommentEnd? rest).isSome := by
  induction rest using splitAtCommentEnd?.induct with
  | case1 rest => rfl
  | case2 c rest hne ih =>
      rw [splitAtCommentEnd?.eq_2 _ _ hne, Option.isSome_map, ← ih]
      by_cases hc : c = '*'
      · subst hc
        refine closesComment.eq_2 0x2A (bytes rest) ?_
        intro tail _ htail
        obtain ⟨behind, rfl⟩ := exists_eq_cons_of_bytes (a := '/') (by decide) htail
        exact hne behind rfl rfl
      · exact closesComment_append (star_mem_utf8EncodeChar_iff.not.mpr hc) (bytes rest)
  | case3 => rfl

/-! ## Blanks for bytes -/

theorem bytes_replicate_blank (n : ℕ) :
    bytes (List.replicate n ' ') = List.replicate n 0x20 := by
  induction n with
  | zero => rfl
  | succ n ih =>
      rw [List.replicate_succ, bytes_cons, ih]
      rfl

theorem bytes_blankOut (comment : Text) :
    bytes (blankOut comment) = (bytes comment).map (blankByte true) := by
  induction comment with
  | nil => rfl
  | cons c comment ih =>
      have hchar : bytes (blankChar c) = (String.utf8EncodeChar c).map (blankByte true) := by
        rw [blankChar]
        split
        next hc =>
          rw [hc]
          rfl
        next hc =>
          rw [bytes_replicate_blank, ← String.length_utf8EncodeChar]
          symm
          refine List.map_eq_replicate_iff.mpr fun b hb => ?_
          have hne : b ≠ 0x0A := by
            rintro rfl
            exact hc (newline_mem_utf8EncodeChar_iff.mp hb)
          simp [blankByte, hne]
      rw [blankOut, List.flatMap_cons, bytes_append, ← blankOut, ih, hchar, bytes_cons,
        List.map_append]

theorem zipWith_blankByte_append (marked : Bool) (run bs : List UInt8) (marks : List Bool) :
    List.zipWith blankByte (run.map (fun _ => marked) ++ marks) (run ++ bs) =
      run.map (blankByte marked) ++ List.zipWith blankByte marks bs := by
  induction run with
  | nil => rfl
  | cons b run ih => exact congrArg (blankByte marked b :: ·) ih

theorem map_blankByte_false (bs : List UInt8) : bs.map (blankByte false) = bs :=
  List.map_id bs

/-- A comment is blanked byte by byte, if all its bytes are marked. -/
theorem bytes_blankOut_append {comment rest : Text}
    (hmarks : commentMarks .code (bytes (comment ++ rest)) =
      (bytes comment).map (fun _ => true) ++ commentMarks .code (bytes rest))
    (hrest : bytes (blankComments rest) =
      List.zipWith blankByte (commentMarks .code (bytes rest)) (bytes rest)) :
    bytes (blankOut comment ++ blankComments rest) =
      List.zipWith blankByte (commentMarks .code (bytes (comment ++ rest)))
        (bytes (comment ++ rest)) := by
  rw [hmarks, bytes_append, bytes_append, bytes_blankOut, hrest, zipWith_blankByte_append]

/-- The text without comments, byte by byte. -/
theorem bytes_blankComments (t : Text) :
    bytes (blankComments t) =
      List.zipWith blankByte (commentMarks .code (bytes t)) (bytes t) := by
  induction t using blankComments.induct with
  | case1 =>
      rw [blankComments]
      rfl
  | case2 rest ih =>
      have hmarks : commentMarks .code (bytes ('/' :: '/' :: rest)) =
          (bytes ('/' :: '/' :: rest.takeWhile (· != '\n'))).map (fun _ => true) ++
            commentMarks .code (bytes (rest.dropWhile (· != '\n'))) :=
        congrArg (true :: true :: ·) (commentMarks_line rest)
      have hsplit : '/' :: '/' :: rest =
          '/' :: '/' :: rest.takeWhile (· != '\n') ++ rest.dropWhile (· != '\n') := by
        rw [List.cons_append, List.cons_append, List.takeWhile_append_dropWhile]
      rw [blankComments_line, hsplit]
      rw [hsplit] at hmarks
      exact bytes_blankOut_append hmarks ih
  | case3 rest comment after hend ih =>
      have hclosed : closesComment (bytes rest) = true := by
        rw [closesComment_bytes, hend]
        rfl
      have hmarks : commentMarks .code (bytes ('/' :: '*' :: rest)) =
          (bytes ('/' :: '*' :: (comment ++ ['*', '/']))).map (fun _ => true) ++
            commentMarks .code (bytes after) :=
        (if_pos hclosed).trans (congrArg (true :: true :: ·) (commentMarks_block hend))
      have hsplit : '/' :: '*' :: rest = '/' :: '*' :: (comment ++ ['*', '/']) ++ after := by
        rw [(eq_append_of_splitAtCommentEnd? hend).1]
        simp
      rw [blankComments_block hend, hsplit]
      rw [hsplit] at hmarks
      exact bytes_blankOut_append hmarks ih
  | case4 rest hend =>
      have hopen : ¬ closesComment (bytes rest) = true := by
        rw [closesComment_bytes, hend]
        exact Bool.false_ne_true
      have hmarks : commentMarks .code (bytes ('/' :: '*' :: rest)) =
          (bytes ('/' :: '*' :: rest)).map fun _ => false :=
        if_neg hopen
      rw [hmarks, List.zipWith_map_left, List.zipWith_self, blankComments, hend]
      exact (map_blankByte_false _).symm
  | case5 c rest hline hblock ih =>
      have hstays : blankComments (c :: rest) = c :: blankComments rest :=
        blankComments.eq_4 c rest hline hblock
      rw [hstays, commentMarks_code hline hblock, bytes_cons, bytes_cons,
        zipWith_blankByte_append, ih, map_blankByte_false]

theorem length_commentMarks (state : Lexing) (bs : List UInt8) :
    (commentMarks state bs).length = bs.length := by
  induction state, bs using commentMarks.induct with
  | case1 =>
      rw [commentMarks]
      rfl
  | case2 rest ih => exact congrArg (· + 2) ih
  | case3 rest hclosed ih =>
      rw [commentMarks, if_pos hclosed]
      exact congrArg (· + 2) ih
  | case4 rest hopen =>
      rw [commentMarks, if_neg hopen]
      exact congrArg (· + 2) (List.length_map _)
  | case5 b rest hline hblock ih =>
      rw [commentMarks.eq_4 b rest hline hblock]
      exact congrArg (· + 1) ih
  | case6 rest ih => exact congrArg (· + 1) ih
  | case7 b rest hne ih =>
      rw [commentMarks.eq_6 b rest hne]
      exact congrArg (· + 1) ih
  | case8 rest ih => exact congrArg (· + 2) ih
  | case9 b rest hne ih =>
      rw [commentMarks.eq_8 b rest hne]
      exact congrArg (· + 1) ih

/-- Byte `j` is part of a comment. -/
def InComment (bs : List UInt8) (j : ℕ) : Prop := (commentMarks .code bs)[j]? = some true

/-- The second bytes are the first ones with their comments blanked. -/
structure BlanksComments (bs blanked : List UInt8) : Prop where
  length_eq : blanked.length = bs.length
  blank {j : ℕ} {b : UInt8} : bs[j]? = some b → InComment bs j → b ≠ 0x0A →
    blanked[j]? = some 0x20
  kept {j : ℕ} {b : UInt8} : bs[j]? = some b → ¬ (InComment bs j ∧ b ≠ 0x0A) →
    blanked[j]? = some b

/-- Comments are blanked as the lexer finds them, whatever bytes stand between the marks. -/
theorem blanksComments_bytes (t : Text) : BlanksComments (bytes t) (bytes (blankComments t)) := by
  have hlength := length_commentMarks .code (bytes t)
  have hbyte {j : ℕ} {b : UInt8} (hb : (bytes t)[j]? = some b) :
      ∃ marked, (commentMarks .code (bytes t))[j]? = some marked ∧
        (bytes (blankComments t))[j]? = some (blankByte marked b) := by
    obtain ⟨hj, rfl⟩ := List.getElem?_eq_some_iff.mp hb
    have hmark := List.getElem?_eq_getElem (hlength.symm ▸ hj)
    refine ⟨_, hmark, ?_⟩
    rw [bytes_blankComments, List.getElem?_zipWith, hmark, hb]
  refine ⟨?_, ?_, ?_⟩
  · rw [bytes_blankComments, List.length_zipWith, hlength, Nat.min_self]
  · intro j b hb hin hne
    obtain ⟨marked, hmark, hresult⟩ := hbyte hb
    obtain rfl : marked = true := Option.some.inj (hmark.symm.trans hin)
    rw [hresult, blankByte, if_pos ⟨rfl, hne⟩]
  · intro j b hb hout
    obtain ⟨marked, hmark, hresult⟩ := hbyte hb
    have hplain : ¬ (marked = true ∧ b ≠ 0x0A) := by
      rintro ⟨rfl, hne⟩
      exact hout ⟨hmark, hne⟩
    rw [hresult, blankByte, if_neg hplain]

/-- The star of an opening mark closes no comment, and none is looked for behind the mark. -/
example : commentMarks .code (bytes "a/*/ //".toList) = List.replicate 7 false := by decide

end HeaderBindings.Header
