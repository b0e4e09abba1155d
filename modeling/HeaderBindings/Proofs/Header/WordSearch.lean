import HeaderBindings.Proofs.Header.Boundaries
import HeaderBindings.Proofs.Header.Moves
import Mathlib.Order.Bounds.Basic

/-! # Where a search for a word stops

The search that heeds no nesting stops at the least offset of the range at which the keyword stands
as a whole word, and the search that heeds braces at the least such offset outside of braces. So the
second never stops before the first, and where there are no braces they are one search. -/

namespace HeaderBindings.Header

open List Text Cursor

variable {keyword : Text}

/-! ## The first word of a text -/

/-- The keyword stands as a whole word behind a beginning of the text. -/
structure WordBehind (keyword : Text) (before? : Option Char) (t front : Text) : Prop where
  separatesWords_front : separatesWords (front.getLast?.or before?) = true
  exists_rest : ∃ rest, t = front ++ (keyword ++ rest) ∧ separatesWords rest.head? = true

section

variable {depthAfter : ℕ → Char → ℕ} {depth : ℕ} {before? : Option Char} {t front : Text}

theorem wordBehind_nil_iff : WordBehind keyword before? t [] ↔
    (afterWord? keyword before? t).isSome = true := by
  rw [Option.isSome_iff_exists]
  constructor
  · rintro ⟨hbefore, rest, ht, hrest⟩
    exact ⟨rest, afterWord?_eq_some_iff.mpr ⟨ht, hbefore, hrest⟩⟩
  · rintro ⟨rest, hrest⟩
    obtain ⟨ht, hbefore, hrest⟩ := afterWord?_eq_some_iff.mp hrest
    exact ⟨hbefore, rest, ht, hrest⟩

theorem wordBehind_cons_iff {c d : Char} :
    WordBehind keyword before? (c :: t) (d :: front) ↔
      d = c ∧ WordBehind keyword (some c) t front := by
  constructor
  · rintro ⟨hfront, rest, ht, hrest⟩
    obtain ⟨rfl, rfl⟩ := List.cons.inj ht
    rw [getLast?_cons_or] at hfront
    exact ⟨rfl, hfront, rest, rfl, hrest⟩
  · rintro ⟨rfl, hfront, rest, rfl, hrest⟩
    rw [← getLast?_cons_or d front before?] at hfront
    exact ⟨hfront, rest, rfl, hrest⟩

/-- What the search passes leads to a word at depth zero, and is part of all that does. -/
theorem first_of_upToWordAt? {part : Text}
    (h : upToWordAt? keyword depthAfter depth before? t = some part) :
    WordBehind keyword before? t part ∧ part.foldl depthAfter depth = 0 ∧
      ∀ front, WordBehind keyword before? t front → front.foldl depthAfter depth = 0 →
        part <+: front := by
  induction t generalizing depth before? part with
  | nil => cases h
  | cons c t ih =>
      rw [upToWordAt?] at h
      split at h
      next hfound =>
        cases h
        exact ⟨wordBehind_nil_iff.mpr hfound.2, hfound.1, fun front _ _ => List.nil_prefix⟩
      next hnot =>
        obtain ⟨part, hpart, rfl⟩ := Option.map_eq_some_iff.mp h
        obtain ⟨hword, hdepth, hfirst⟩ := ih hpart
        refine ⟨wordBehind_cons_iff.mpr ⟨rfl, hword⟩, hdepth, fun front hfront hzero => ?_⟩
        cases front with
        | nil => exact absurd ⟨hzero, wordBehind_nil_iff.mp hfront⟩ hnot
        | cons d front =>
            obtain ⟨rfl, hfront⟩ := wordBehind_cons_iff.mp hfront
            exact (List.prefix_cons_inj d).mpr (hfirst front hfront hzero)

theorem not_wordBehind_of_upToWordAt? (hne : keyword ≠ [])
    (h : upToWordAt? keyword depthAfter depth before? t = none) (front : Text)
    (hfront : WordBehind keyword before? t front) : front.foldl depthAfter depth ≠ 0 := by
  induction t generalizing depth before? front with
  | nil =>
      obtain ⟨rest, ht, -⟩ := hfront.exists_rest
      exact absurd ht (by simp [hne])
  | cons c t ih =>
      rw [upToWordAt?] at h
      split at h
      next => cases h
      next hnot =>
        cases front with
        | nil => exact fun hzero => hnot ⟨hzero, wordBehind_nil_iff.mp hfront⟩
        | cons d front =>
            obtain ⟨rfl, hfront⟩ := wordBehind_cons_iff.mp hfront
            exact ih (Option.map_eq_none_iff.mp h) front hfront

theorem upToWordAt?_of_no_brace (h : ∀ c ∈ t, c ≠ '{' ∧ c ≠ '}') :
    upToWordAt? keyword braceDepthAfter 0 before? t =
      upToWordAt? keyword sameDepth 0 before? t := by
  induction t generalizing before? with
  | nil => rfl
  | cons c t ih =>
      obtain ⟨⟨hopen, hclose⟩, h⟩ := List.forall_mem_cons.mp h
      rw [upToWordAt?, upToWordAt?, braceDepthAfter_of_ne hopen hclose, sameDepth, ih h]

theorem foldl_sameDepth (t : Text) (depth : ℕ) : t.foldl sameDepth depth = depth := by
  induction t with
  | nil => rfl
  | cons c t ih => exact ih

end

/-! ## Words of a range -/

/-- The keyword stands as a whole word at an offset of the range: no name character stands right
before it in the text, or right behind it in the range. -/
structure IsWordAt (keyword : Text) (s : Cursor) (offset : ℕ) : Prop where
  pos_le : s.pos ≤ offset
  le_stop : offset + size keyword ≤ s.stop
  isWholeWord : ∃ front back, s.text = front ++ (keyword ++ back) ∧ size front = offset ∧
    separatesWords front.getLast? = true ∧
    (offset + size keyword < s.stop → separatesWords back.head? = true)

/-- The text from the cursor on up to an offset. -/
def Cursor.upTo (s : Cursor) (offset : ℕ) : Text :=
  let (before, after) := splitFrom s.pos s.text
  within (offset - size before) after

/-- No brace that opens behind the cursor is still open at the offset. A closing brace that closes
nothing does not count. -/
def OutsideBraces (s : Cursor) (offset : ℕ) : Prop :=
  (s.upTo offset).foldl braceDepthAfter 0 = 0

/-- The characters that lie whole in the range of a cursor, with the text before and behind them. A
beginning of the text starts behind the cursor if it starts behind the text before, and ends in the
range if it ends in these characters. -/
structure Cursor.Covers (s : Cursor) (before rest after : Text) : Prop where
  splitFrom_eq : splitFrom s.pos s.text = (before, rest ++ after)
  within_eq : within (s.stop - size before) (rest ++ after) = rest
  pos_le_iff (front back : Text) (h : s.text = front ++ back) :
    s.pos ≤ size front ↔ size before ≤ size front
  le_stop_iff (front back : Text) (h : s.text = front ++ back) (hlt : size before < size front) :
    size front ≤ s.stop ↔ size front ≤ size (before ++ rest)

theorem exists_covers {s : Cursor} (hpos : s.pos ≤ s.stop) (hstop : s.stop ≤ size s.text) :
    ∃ before rest after, s.Covers before rest after := by
  obtain ⟨t, pos, stop⟩ := s
  simp only at hpos hstop
  obtain ⟨before, behind, hsplit⟩ : ∃ before behind, splitFrom pos t = (before, behind) :=
    ⟨_, _, rfl⟩
  obtain ⟨after, hafter⟩ := exists_eq_within_append (stop - size before) behind
  have htext := splitFrom_fst_append_snd pos t
  rw [hsplit] at htext
  refine ⟨before, within (stop - size before) behind, after, ?_, ?_, ?_, ?_⟩
  · rw [hsplit, ← hafter]
  · rw [← hafter]
  · rintro front back rfl
    rw [le_size_iff_splitFrom (hpos.trans hstop), hsplit]
  · rintro front back hfront hlt
    obtain ⟨part, rfl⟩ : before <+: front := by
      apply prefix_of_size_le ⟨behind, htext⟩ ⟨back, hfront.symm⟩
      exact Nat.le_of_lt hlt
    simp only at hfront
    rw [hfront, List.append_assoc] at htext
    obtain rfl := List.append_cancel_left htext
    have hpart := @size_le_iff_within (stop - size before) part back
    rw [size_append] at hlt
    rw [size_append, size_append]
    simp only
    omega

theorem covers_amid (before rest after : Text) :
    (amid before rest after).Covers before rest after where
  splitFrom_eq := splitFrom_amid
  within_eq := by
    rw [amid, Nat.add_sub_cancel_left, within_append]
  pos_le_iff _ _ _ := Iff.rfl
  le_stop_iff _ _ _ _ := by rw [size_append]; rfl

namespace Cursor.Covers

variable {s : Cursor} {before rest after front left : Text} {offset : ℕ}

theorem text_eq (h : s.Covers before rest after) : s.text = before ++ (rest ++ after) := by
  rw [← splitFrom_fst_append_snd s.pos s.text, h.splitFrom_eq]

theorem size_le_stop (h : s.Covers before rest after) (hrest : rest ≠ []) :
    size (before ++ rest) ≤ s.stop := by
  have hpos := size_pos_of_ne_nil hrest
  refine (h.le_stop_iff _ after ?_ ?_).mpr (Nat.le_refl _)
  · rw [h.text_eq, List.append_assoc]
  · rw [size_append]
    omega

/-- A character that starts in the range and ends behind it takes more than one byte. -/
theorem separatesWords_after (h : s.Covers before rest after) (hrest : rest ≠ [])
    (hlt : size (before ++ rest) < s.stop) : separatesWords after.head? = true := by
  cases after with
  | nil => rfl
  | cons c after =>
      have hpos := size_pos_of_ne_nil hrest
      have hend := h.le_stop_iff (before ++ rest ++ [c]) after
        (by rw [h.text_eq]; simp) (by rw [size_append, size_append]; omega)
      have hc : c.utf8Size ≠ 1 := by
        simp only [size_append, size_cons, size_nil] at hend hlt
        omega
      apply separatesWords_some
      by_contra hname
      exact hc (utf8Size_of_isNameChar (Bool.of_not_eq_false hname))

/-- What stands right behind a part of the range is the same in the range and in the text, as far as
words go. -/
theorem separatesWords_left (h : s.Covers before (front ++ left) after) (hne : front ≠ []) :
    separatesWords left.head? = true ↔
      (size (before ++ front) < s.stop → separatesWords (left ++ after).head? = true) := by
  cases left with
  | nil =>
      rw [List.append_nil] at h
      exact iff_of_true rfl (h.separatesWords_after hne)
  | cons c left =>
      have hstop := h.size_le_stop (by simp)
      have hpos := one_le_utf8Size c
      simp only [size_append, size_cons] at hstop ⊢
      exact (imp_iff_right (by omega)).symm

/-- The words of the range are those of the characters that lie whole in it, since a keyword that
ends in the range is part of them. -/
theorem isWordAt_iff (h : s.Covers before rest after) (hne : keyword ≠ []) :
    IsWordAt keyword s offset ↔
      ∃ front, WordBehind keyword before.getLast? rest front ∧
        offset = size before + size front := by
  have hkeyword := size_pos_of_ne_nil hne
  constructor
  · rintro ⟨hpos, hstop, front, back, ht, rfl, hfront, hback⟩
    rw [h.pos_le_iff _ _ ht] at hpos
    obtain ⟨front, rfl⟩ : before <+: front :=
      prefix_of_size_le ⟨_, h.text_eq.symm⟩ ⟨_, ht.symm⟩ hpos
    have hrest : rest ++ after = front ++ keyword ++ back := by
      rw [h.text_eq, List.append_assoc] at ht
      rw [List.append_assoc, List.append_cancel_left ht]
    obtain ⟨left, rfl⟩ : front ++ keyword <+: rest := by
      apply prefix_of_size_le ⟨back, hrest.symm⟩ ⟨after, rfl⟩
      have hend := (h.le_stop_iff (before ++ front ++ keyword) back
        (by rw [ht]; simp) (by rw [size_append, size_append]; omega)).mp
        (by rw [size_append]; exact hstop)
      simp only [size_append] at hend ⊢
      omega
    rw [List.append_assoc] at hrest
    obtain rfl := List.append_cancel_left hrest
    refine ⟨front, ⟨by rwa [← List.getLast?_append], left, by simp, ?_⟩, size_append _ _⟩
    rw [h.separatesWords_left (by simp [hne]), ← List.append_assoc, size_append]
    exact hback
  · rintro ⟨front, ⟨hfront, left, rfl, hleft⟩, rfl⟩
    have ht : s.text = before ++ front ++ (keyword ++ (left ++ after)) := by
      rw [h.text_eq]
      simp
    rw [← List.append_assoc front] at h
    rw [h.separatesWords_left (by simp [hne]), ← List.append_assoc, size_append, size_append]
      at hleft
    refine ⟨?_, ?_, before ++ front, left ++ after, ht, size_append _ _, ?_, hleft⟩
    · rw [← size_append, h.pos_le_iff _ _ ht, size_append]
      exact Nat.le_add_right _ _
    · have hend := h.le_stop_iff (before ++ front ++ keyword) (left ++ after)
        (by rw [ht]; simp) (by rw [size_append, size_append]; omega)
      simp only [size_append] at hend
      omega
    · rw [List.getLast?_append]
      exact hfront

theorem upTo_eq (h : s.Covers before (front ++ left) after) :
    s.upTo (size before + size front) = front := by
  rw [Cursor.upTo, h.splitFrom_eq]
  simp only
  rw [Nat.add_sub_cancel_left, List.append_assoc, within_append]

theorem isWordAt_and_outsideBraces_iff (h : s.Covers before rest after) (hne : keyword ≠ []) :
    IsWordAt keyword s offset ∧ OutsideBraces s offset ↔
      ∃ front, WordBehind keyword before.getLast? rest front ∧
        front.foldl braceDepthAfter 0 = 0 ∧ offset = size before + size front := by
  have hdepth : ∀ front, WordBehind keyword before.getLast? rest front →
      (OutsideBraces s (size before + size front) ↔ front.foldl braceDepthAfter 0 = 0) := by
    rintro front ⟨-, left, rfl, -⟩
    rw [OutsideBraces, h.upTo_eq]
  rw [h.isWordAt_iff hne]
  constructor
  · rintro ⟨⟨front, hfront, rfl⟩, houtside⟩
    exact ⟨front, hfront, (hdepth front hfront).mp houtside, rfl⟩
  · rintro ⟨front, hfront, hzero, rfl⟩
    exact ⟨⟨front, hfront, rfl⟩, (hdepth front hfront).mpr hzero⟩

end Cursor.Covers

/-! ## Searches -/

/-- What was found is the first offset of its kind, if there is one. -/
structure FindsFirst (occurs : ℕ → Prop) (found? : Option ℕ) : Prop where
  isLeast_iff (offset : ℕ) : found? = some offset ↔ IsLeast {offset | occurs offset} offset
  eq_none_iff : found? = none ↔ ∀ offset, ¬ occurs offset

theorem findsFirst_none {occurs : ℕ → Prop} (h : ∀ offset, ¬ occurs offset) :
    FindsFirst occurs none where
  isLeast_iff offset := iff_of_false (Option.some_ne_none offset).symm fun hleast =>
    h offset hleast.1
  eq_none_iff := iff_of_true rfl h

theorem findsFirst_some {occurs : ℕ → Prop} {first : ℕ}
    (h : IsLeast {offset | occurs offset} first) : FindsFirst occurs (some first) where
  isLeast_iff offset := by
    rw [Option.some.injEq]
    exact ⟨fun heq => heq ▸ h, fun hoffset => h.unique hoffset⟩
  eq_none_iff := iff_of_false (Option.some_ne_none first) fun hnever => hnever first h.1

/-- The offset at which a search from character to character stops. -/
def firstWord? (keyword : Text) (depthAfter : ℕ → Char → ℕ) (before rest : Text) : Option ℕ :=
  (upToWordAt? keyword depthAfter 0 before.getLast? rest).map (size before + size ·)

theorem findsFirst_firstWord? (hne : keyword ≠ []) {depthAfter : ℕ → Char → ℕ}
    {before rest : Text} {occurs : ℕ → Prop}
    (h : ∀ offset, occurs offset ↔ ∃ front, WordBehind keyword before.getLast? rest front ∧
      front.foldl depthAfter 0 = 0 ∧ offset = size before + size front) :
    FindsFirst occurs (firstWord? keyword depthAfter before rest) := by
  rw [firstWord?]
  cases hfound : upToWordAt? keyword depthAfter 0 before.getLast? rest with
  | none =>
      refine findsFirst_none fun offset hoffset => ?_
      obtain ⟨front, hfront, hzero, rfl⟩ := (h offset).mp hoffset
      exact not_wordBehind_of_upToWordAt? hne hfound front hfront hzero
  | some part =>
      obtain ⟨hpart, hzero, hfirst⟩ := first_of_upToWordAt? hfound
      rw [Option.map_some]
      refine findsFirst_some ⟨(h _).mpr ⟨part, hpart, hzero, rfl⟩, ?_⟩
      intro offset hoffset
      obtain ⟨front, hfront, hzero, rfl⟩ := (h offset).mp hoffset
      obtain ⟨rest, rfl⟩ := hfirst front hfront hzero
      rw [size_append]
      omega

theorem FindsFirst.exists_le {more fewer : ℕ → Prop} {first? second? : Option ℕ}
    (hfirst : FindsFirst more first?) (hsecond : FindsFirst fewer second?)
    (h : ∀ offset, fewer offset → more offset) :
    ∀ offset ∈ second?, ∃ first ∈ first?, first ≤ offset := by
  intro offset hoffset
  have hmore := h offset ((hsecond.isLeast_iff offset).mp hoffset).1
  cases hfound : first? with
  | none => exact absurd hmore (hfirst.eq_none_iff.mp hfound offset)
  | some first => exact ⟨first, rfl, ((hfirst.isLeast_iff first).mp hfound).2 hmore⟩

/-- The cursor behind the keyword at the offset that was found, or at the end of its range. -/
def Cursor.behind (s : Cursor) (keyword : Text) (found? : Option ℕ) : Cursor :=
  { s with pos := found?.elim s.stop (· + size keyword) }

section

variable {s : Cursor} {before rest after : Text}

theorem Cursor.Covers.passKeyword_eq (h : s.Covers before rest after) (hpos : s.pos < s.stop)
    (hstop : s.stop ≤ size s.text) (hkeyword : keyword.head?.any isNameChar = true) :
    s.passKeyword keyword = .ok (firstWord? keyword braceDepthAfter before rest,
      s.behind keyword (firstWord? keyword braceDepthAfter before rest)) := by
  rw [passKeyword, if_neg (Nat.not_le.mpr hpos), if_neg (Nat.not_lt.mpr hstop), h.splitFrom_eq,
    firstWord?]
  simp only [h.within_eq, offsetOfKeyword?_eq_map_size hkeyword]
  cases upToWordAt? keyword braceDepthAfter 0 before.getLast? rest <;> rfl

/-- The search outside of braces needs no boundaries, only a range that ends in the text. -/
theorem exists_passKeyword_eq (hne : keyword ≠ []) (hkeyword : keyword.head?.any isNameChar = true)
    (hstop : s.stop ≤ size s.text) :
    ∃ outer?, s.passKeyword keyword = .ok (outer?, s.behind keyword outer?) ∧
      FindsFirst (fun offset => IsWordAt keyword s offset ∧ OutsideBraces s offset) outer? := by
  rcases Nat.lt_or_ge s.pos s.stop with hpos | hpos
  · obtain ⟨before, rest, after, hcovers⟩ := exists_covers hpos.le hstop
    refine ⟨_, hcovers.passKeyword_eq hpos hstop hkeyword, ?_⟩
    exact findsFirst_firstWord? hne fun offset => hcovers.isWordAt_and_outsideBraces_iff hne
  · refine ⟨none, by rw [passKeyword, if_pos hpos]; rfl, findsFirst_none ?_⟩
    rintro offset ⟨hword, -⟩
    have hlong := size_pos_of_ne_nil hne
    have hfirst := hword.pos_le
    have hlast := hword.le_stop
    omega

variable (before rest after)

theorem passKeyword_amid_eq (hkeyword : keyword.head?.any isNameChar = true) :
    (amid before rest after).passKeyword keyword =
      .ok (firstWord? keyword braceDepthAfter before rest,
        (amid before rest after).behind keyword
          (firstWord? keyword braceDepthAfter before rest)) := by
  by_cases hrest : rest = []
  · subst hrest
    simp [passKeyword, amid, firstWord?, upToWordAt?, Cursor.behind]
  · have hpos := size_pos_of_ne_nil hrest
    exact (covers_amid before rest after).passKeyword_eq (Nat.lt_add_of_pos_right hpos)
      (by simp [amid]) hkeyword

theorem seekWord_amid_eq (hne : keyword ≠ []) (hkeyword : ∀ c ∈ keyword, isNameChar c = true) :
    (amid before rest after).seekWord keyword =
      .ok ((firstWord? keyword sameDepth before rest).isSome,
        { amid before rest after with
          pos := (firstWord? keyword sameDepth before rest).getD
            (amid before rest after).stop }) := by
  rw [firstWord?]
  cases hfound : upToWordAt? keyword sameDepth 0 before.getLast? rest with
  | none =>
      rw [seekWord_amid_of_eq_none hne hkeyword hfound]
      simp [amid]
  | some part =>
      obtain ⟨left, rfl, -, -⟩ := eq_append_of_upToWordAt? hfound
      rw [seekWord_amid_of_eq_some hne hkeyword hfound]
      simp [amid, Nat.add_assoc]

theorem passWord_amid_eq (hne : keyword ≠ []) (hkeyword : ∀ c ∈ keyword, isNameChar c = true) :
    (amid before rest after).passWord keyword =
      .ok (firstWord? keyword sameDepth before rest,
        (amid before rest after).behind keyword (firstWord? keyword sameDepth before rest)) := by
  rw [passWord, seekWord_amid_eq _ _ _ hne hkeyword, ok_bind]
  cases firstWord? keyword sameDepth before rest <;> rfl

end

/-- What both searches find at a cursor, and where they leave it. -/
structure SearchesExactly (keyword : Text) (s : Cursor) (word? outer? : Option ℕ) : Prop where
  seekWord_eq : s.seekWord keyword = .ok (word?.isSome, { s with pos := word?.getD s.stop })
  passWord_eq : s.passWord keyword = .ok (word?, s.behind keyword word?)
  passKeyword_eq : s.passKeyword keyword = .ok (outer?, s.behind keyword outer?)
  word : FindsFirst (IsWordAt keyword s) word?
  outer : FindsFirst (fun offset => IsWordAt keyword s offset ∧ OutsideBraces s offset) outer?
  not_before : ∀ offset ∈ outer?, ∃ first ∈ word?, first ≤ offset
  agree_of_no_brace {rest : Text} (hrest : s.rest = .ok rest)
    (hbrace : ∀ c ∈ rest, c ≠ '{' ∧ c ≠ '}') : s.passKeyword keyword = s.passWord keyword

theorem head?_any_isNameChar (hne : keyword ≠ []) (hkeyword : ∀ c ∈ keyword, isNameChar c = true) :
    keyword.head?.any isNameChar = true := by
  obtain ⟨c, tail, rfl⟩ := List.exists_cons_of_ne_nil hne
  exact hkeyword c List.mem_cons_self

theorem exists_searchesExactly (hne : keyword ≠ [])
    (hkeyword : ∀ c ∈ keyword, isNameChar c = true) {s : Cursor} (hs : s.BetweenCharacters) :
    ∃ word? outer?, SearchesExactly keyword s word? outer? := by
  obtain ⟨before, rest, after, rfl⟩ := hs.exists_eq_amid
  have hcovers := covers_amid before rest after
  have hword : FindsFirst (IsWordAt keyword (amid before rest after))
      (firstWord? keyword sameDepth before rest) := by
    refine findsFirst_firstWord? hne fun offset => ?_
    simpa only [foldl_sameDepth, true_and] using hcovers.isWordAt_iff hne
  have houter : FindsFirst (fun offset => IsWordAt keyword (amid before rest after) offset ∧
      OutsideBraces (amid before rest after) offset)
      (firstWord? keyword braceDepthAfter before rest) :=
    findsFirst_firstWord? hne fun offset => hcovers.isWordAt_and_outsideBraces_iff hne
  have hseek := seekWord_amid_eq before rest after hne hkeyword
  have hpass := passWord_amid_eq before rest after hne hkeyword
  have hpassOuter := passKeyword_amid_eq before rest after (head?_any_isNameChar hne hkeyword)
  refine ⟨_, _, hseek, hpass, hpassOuter, hword, houter,
    hword.exists_le houter fun offset hoffset => hoffset.1, ?_⟩
  intro part hpart hbrace
  rw [rest_amid] at hpart
  obtain rfl := Except.ok.inj hpart
  rw [hpass, hpassOuter, firstWord?, firstWord?, upToWordAt?_of_no_brace hbrace]

theorem exists_seekWord_eq_error {s : Cursor} (hs : ¬ s.BetweenCharacters) (keyword : Text) :
    ∃ cut, s.seekWord keyword = .error cut := by
  obtain ⟨cut, hcut⟩ := exists_rest_eq_error hs
  exact ⟨cut, by rw [seekWord, hcut, error_bind]⟩

/-- Between characters both searches meet no bad cut and find exactly the first word, and the first
word outside of braces. Elsewhere the first search fails, and the second still finds the first word
outside of braces in every range that ends in the text. -/
theorem searchesExactly (hne : keyword ≠ []) (hkeyword : ∀ c ∈ keyword, isNameChar c = true)
    (s : Cursor) :
    (s.BetweenCharacters → ∃ word? outer?, SearchesExactly keyword s word? outer?) ∧
    (¬ s.BetweenCharacters →
      (∃ cut, s.seekWord keyword = .error cut) ∧ (∃ cut, s.passWord keyword = .error cut) ∧
      (s.stop ≤ size s.text →
        ∃ outer?, s.passKeyword keyword = .ok (outer?, s.behind keyword outer?) ∧
          FindsFirst (fun offset => IsWordAt keyword s offset ∧ OutsideBraces s offset)
            outer?)) := by
  refine ⟨exists_searchesExactly hne hkeyword, fun hs => ?_⟩
  obtain ⟨cut, hcut⟩ := exists_seekWord_eq_error hs keyword
  refine ⟨⟨cut, hcut⟩, ⟨cut, by rw [passWord, hcut, error_bind]⟩, ?_⟩
  exact exists_passKeyword_eq hne (head?_any_isNameChar hne hkeyword)

/-- The first `enum` is in braces, the next two are parts of other names, and the last is cut off
from the rest of its name by the end of the range. -/
theorem searchesExactly_enum :
    let s : Cursor := ⟨"é\x7b enum \x7d xenum enum_ \x7d é enums", 2, 32⟩
    SearchesExactly "enum" s (some 4) (some 28) := by
  intro s
  have hkeyword : ∀ c ∈ "enum".toList, isNameChar c = true := List.all_eq_true.mp (by decide)
  obtain ⟨word?, outer?, h⟩ := (searchesExactly (by decide) hkeyword s).1 (by decide +kernel)
  have hword : s.passWord "enum" = .ok (some 4, { s with pos := 8 }) := by decide +kernel
  have houter : s.passKeyword "enum" = .ok (some 28, { s with pos := 32 }) := by decide +kernel
  obtain rfl : word? = some 4 :=
    (Prod.ext_iff.mp (Except.ok.inj (h.passWord_eq.symm.trans hword))).1
  obtain rfl : outer? = some 28 :=
    (Prod.ext_iff.mp (Except.ok.inj (h.passKeyword_eq.symm.trans houter))).1
  exact h

end HeaderBindings.Header
