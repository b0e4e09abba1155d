import HeaderBindings.Header.Comment
import HeaderBindings.Proofs.Header.Words

/-! # Places outside of comments

A word of the text without comments is a word of the text as written: at the same offset, in the
same spelling, and outside of every comment. -/

namespace HeaderBindings.Header

open List Text

/-- A place of a text outside of its comments, given by what stands before and behind it. The text
before it is made of whole comments and of characters at which no comment starts. A block comment
without an end is no comment, and none is looked for behind its start. -/
inductive OutsideComments : Text → Text → Prop
  | start (back : Text) : OutsideComments [] back
  | char {c : Char} {front back : Text} (hline : ¬ ['/', '/'] <+: c :: (front ++ back))
      (hblock : ¬ ['/', '*'] <+: c :: (front ++ back)) (h : OutsideComments front back) :
      OutsideComments (c :: front) back
  | line {comment front back : Text} (hcomment : '\n' ∉ comment)
      (hend : ∀ c ∈ (front ++ back).head?, c = '\n') (h : OutsideComments front back) :
      OutsideComments ('/' :: '/' :: (comment ++ front)) back
  | block {comment front back : Text} (hend : ¬ ['*', '/'] <:+: comment ++ ['*'])
      (h : OutsideComments front back) :
      OutsideComments ('/' :: '*' :: (comment ++ '*' :: '/' :: front)) back
  | unclosed {front back : Text} (hopen : ¬ ['*', '/'] <:+: front ++ back) :
      OutsideComments ('/' :: '*' :: front) back

/-! ## Ends of block comments -/

/-- A block comment ends at its first end mark: one before it would have ended the comment there. -/
theorem eq_append_of_splitAtCommentEnd? {t comment after : Text}
    (h : splitAtCommentEnd? t = some (comment, after)) :
    t = comment ++ '*' :: '/' :: after ∧ ¬ ['*', '/'] <:+: comment ++ ['*'] := by
  induction t using splitAtCommentEnd?.induct generalizing comment with
  | case1 rest =>
      cases h
      exact ⟨rfl, by decide⟩
  | case2 c rest hne ih =>
      rw [splitAtCommentEnd?.eq_2 _ _ hne] at h
      obtain ⟨⟨inner, behind⟩, hinner, heq⟩ := Option.map_eq_some_iff.mp h
      cases heq
      obtain ⟨rfl, hend⟩ := ih hinner
      refine ⟨rfl, ?_⟩
      rw [List.cons_append, List.infix_cons_iff]
      intro hmark
      rcases hmark with hmark | hmark
      · obtain ⟨rfl, hslash⟩ := List.cons_prefix_cons.mp hmark
        cases inner with
        | nil => exact absurd hslash (by decide)
        | cons d inner =>
            obtain ⟨rfl, -⟩ := List.cons_prefix_cons.mp hslash
            exact hne _ rfl rfl
      · exact hend hmark
  | case3 => cases h

theorem not_infix_of_splitAtCommentEnd? {t : Text} (h : splitAtCommentEnd? t = none) :
    ¬ ['*', '/'] <:+: t := by
  induction t using splitAtCommentEnd?.induct with
  | case1 rest => cases h
  | case2 c rest hne ih =>
      rw [splitAtCommentEnd?.eq_2 _ _ hne] at h
      rw [List.infix_cons_iff]
      intro hmark
      rcases hmark with hmark | hmark
      · obtain ⟨rfl, rest, rfl⟩ := List.cons_prefix_cons.mp hmark
        exact hne rest rfl rfl
      · exact ih (Option.map_eq_none_iff.mp h) hmark
  | case3 => decide

/-! ## Blanks in the place of comments -/

theorem size_blankOut (comment : Text) : size (blankOut comment) = size comment := by
  induction comment with
  | nil => rfl
  | cons c comment ih =>
      have hblanks : ∀ n, size (List.replicate n ' ') = n := by
        intro n
        induction n with
        | zero => rfl
        | succ n ih =>
            rw [List.replicate_succ, size_cons, ih, show ' '.utf8Size = 1 from rfl]
            omega
      rw [blankOut, List.flatMap_cons, size_append, ← blankOut, ih, size_cons, blankChar]
      split
      next hc => rw [hc]; rfl
      next => rw [hblanks]

theorem isBlank_of_mem_blankOut {comment : Text} : ∀ c ∈ blankOut comment, isBlank c = true := by
  intro c hc
  obtain ⟨d, -, hd⟩ := List.mem_flatMap.mp hc
  rw [blankChar] at hd
  split at hd
  · rw [List.mem_singleton.mp hd]
    rfl
  · rw [List.eq_of_mem_replicate hd]
    rfl

theorem isNameChar_of_mem_blankOut {comment : Text} :
    ∀ c ∈ blankOut comment, isNameChar c = false := fun c hc =>
  isNameChar_of_isBlank (isBlank_of_mem_blankOut c hc)

/-- A word of name characters stands behind a gap, if it stands behind its start. -/
theorem exists_append_of_gap_append {gap t front word back : Text}
    (hgap : ∀ c ∈ gap, isNameChar c = false) (hne : word ≠ [])
    (hword : ∀ c ∈ word, isNameChar c = true) (h : gap ++ t = front ++ (word ++ back)) :
    ∃ later, front = gap ++ later ∧ t = later ++ (word ++ back) := by
  rcases List.append_eq_append_iff.mp h with ⟨later, hfront, ht⟩ | ⟨inner, hinner, hback⟩
  · exact ⟨later, hfront, ht⟩
  · cases inner with
    | nil => exact ⟨[], by simpa using hinner.symm, by simpa using hback.symm⟩
    | cons c inner =>
        exfalso
        obtain ⟨d, word, rfl⟩ := List.exists_cons_of_ne_nil hne
        obtain ⟨rfl, -⟩ := List.cons.inj hback
        have hc := hgap d (by simp [hinner])
        rw [hword d List.mem_cons_self] at hc
        cases hc

/-! ## Words -/

theorem exists_cons_of_blankComments {raw t : Text} {c : Char} (hc : isNameChar c = true)
    (h : blankComments raw = c :: t) : ∃ rest, raw = c :: rest ∧ blankComments rest = t := by
  have hother : ∀ {d : Char} {s : Text}, isNameChar d = false → d :: s ≠ c :: t := by
    intro d s hd heq
    exact ne_of_isNameChar hc hd (List.cons.inj heq).1.symm
  induction raw using blankComments.induct with
  | case1 =>
      rw [blankComments] at h
      cases h
  | case2 rest =>
      rw [blankComments] at h
      exact absurd h (hother (by decide))
  | case3 rest comment after hend =>
      rw [blankComments, hend] at h
      exact absurd h (hother (by decide))
  | case4 rest hend =>
      rw [blankComments, hend] at h
      exact absurd h (hother (by decide))
  | case5 d rest hline hblock =>
      rw [blankComments] at h
      · obtain ⟨rfl, ht⟩ := List.cons.inj h
        exact ⟨rest, rfl, ht⟩
      · exact hline
      · exact hblock

theorem separatesWords_head?_of_blankComments {t : Text}
    (h : separatesWords (blankComments t).head? = true) : separatesWords t.head? = true := by
  induction t using blankComments.induct with
  | case1 => rfl
  | case2 rest => rfl
  | case3 rest => rfl
  | case4 rest => rfl
  | case5 c rest hline hblock =>
      rw [blankComments] at h
      · exact h
      · exact hline
      · exact hblock

theorem exists_append_of_blankComments {raw word back : Text}
    (hword : ∀ c ∈ word, isNameChar c = true) (hback : separatesWords back.head? = true)
    (h : blankComments raw = word ++ back) :
    ∃ behind, raw = word ++ behind ∧ separatesWords behind.head? = true := by
  induction word generalizing raw with
  | nil =>
      rw [List.nil_append] at h
      exact ⟨raw, rfl, separatesWords_head?_of_blankComments (h ▸ hback)⟩
  | cons c word ih =>
      obtain ⟨hc, hword⟩ := List.forall_mem_cons.mp hword
      obtain ⟨rest, rfl, hrest⟩ := exists_cons_of_blankComments hc h
      obtain ⟨behind, rfl, hbehind⟩ := ih hword hrest
      exact ⟨behind, rfl, hbehind⟩

/-- A whole word of a text outside of its comments. -/
structure StandsOutside (raw front word back : Text) : Prop where
  text_eq : raw = front ++ (word ++ back)
  isWholeWord : IsWholeWord front.getLast? back.head?
  outside : OutsideComments front (word ++ back)

namespace StandsOutside

variable {rest front word back comment : Text}

/-- A line comment ends before a newline, which is no part of a word. -/
theorem line (h : StandsOutside rest front word back) (hne : word ≠ [])
    (hword : ∀ c ∈ word, isNameChar c = true) (hcomment : '\n' ∉ comment)
    (hend : ∀ c ∈ rest.head?, c = '\n') :
    StandsOutside ('/' :: '/' :: (comment ++ rest)) ('/' :: '/' :: (comment ++ front)) word
      back := by
  obtain ⟨rfl, hwhole, houtside⟩ := h
  have hfront : front ≠ [] := by
    rintro rfl
    obtain ⟨w, tail, rfl⟩ := List.exists_cons_of_ne_nil hne
    have hw := hword w List.mem_cons_self
    rw [hend w rfl] at hw
    exact absurd hw (by decide)
  refine ⟨by simp, ⟨?_, hwhole.behind⟩, .line hcomment hend houtside⟩
  rw [← List.cons_append, ← List.cons_append, List.getLast?_append_of_ne_nil _ hfront]
  exact hwhole.before

theorem block (h : StandsOutside rest front word back) (hend : ¬ ['*', '/'] <:+: comment ++ ['*']) :
    StandsOutside ('/' :: '*' :: (comment ++ '*' :: '/' :: rest))
      ('/' :: '*' :: (comment ++ '*' :: '/' :: front)) word back := by
  obtain ⟨rfl, hwhole, houtside⟩ := h
  refine ⟨by simp, ⟨?_, hwhole.behind⟩, .block hend houtside⟩
  have hfront : '/' :: '*' :: (comment ++ '*' :: '/' :: front) =
      '/' :: '*' :: (comment ++ ['*', '/']) ++ front := by simp
  rw [hfront]
  refine separatesWords_getLast?_append ?_ hwhole.before
  rw [← List.cons_append, ← List.cons_append,
    List.getLast?_append_of_ne_nil _ (List.cons_ne_nil _ _)]
  rfl

theorem char {c : Char} (h : StandsOutside rest front word back)
    (hline : ¬ ['/', '/'] <+: c :: rest) (hblock : ¬ ['/', '*'] <+: c :: rest)
    (hbefore : front = [] → separatesWords (some c) = true) :
    StandsOutside (c :: rest) (c :: front) word back := by
  obtain ⟨rfl, hwhole, houtside⟩ := h
  refine ⟨rfl, ⟨?_, hwhole.behind⟩, .char hline hblock houtside⟩
  by_cases hfront : front = []
  · rw [hfront]
    exact hbefore hfront
  · rw [← List.singleton_append, List.getLast?_append_of_ne_nil _ hfront]
    exact hwhole.before

end StandsOutside

theorem blankComments_line (rest : Text) :
    blankComments ('/' :: '/' :: rest) =
      blankOut ('/' :: '/' :: rest.takeWhile (· != '\n')) ++
        blankComments (rest.dropWhile (· != '\n')) := by
  rw [blankComments]
  rfl

theorem blankComments_block {rest comment after : Text}
    (h : splitAtCommentEnd? rest = some (comment, after)) :
    blankComments ('/' :: '*' :: rest) =
      blankOut ('/' :: '*' :: (comment ++ ['*', '/'])) ++ blankComments after := by
  have hblanks : blankOut ('/' :: '*' :: (comment ++ ['*', '/'])) =
      ' ' :: ' ' :: (blankOut comment ++ [' ', ' ']) := by
    show ' ' :: ' ' :: blankOut (comment ++ ['*', '/']) = _
    rw [blankOut, List.flatMap_append]
    rfl
  rw [blankComments, h, hblanks]
  simp

/-- Offsets of the text without comments are offsets of the text as written. -/
theorem size_blankComments (t : Text) : size (blankComments t) = size t := by
  induction t using blankComments.induct with
  | case1 => rw [blankComments]
  | case2 rest ih =>
      rw [blankComments_line, size_append, size_blankOut, ih, ← size_append, List.cons_append,
        List.cons_append, List.takeWhile_append_dropWhile]
  | case3 rest comment after hend ih =>
      obtain ⟨rfl, -⟩ := eq_append_of_splitAtCommentEnd? hend
      rw [blankComments_block hend, size_append, size_blankOut, ih, ← size_append]
      simp
  | case4 rest hend => rw [blankComments, hend]
  | case5 c rest hline hblock ih =>
      rw [blankComments, size_cons, ih, size_cons]
      · exact hline
      · exact hblock

theorem exists_of_blankOut_append {comment rest front word back : Text} (hne : word ≠ [])
    (hword : ∀ c ∈ word, isNameChar c = true) (hwhole : IsWholeWord front.getLast? back.head?)
    (h : blankOut comment ++ blankComments rest = front ++ (word ++ back)) :
    ∃ later, blankComments rest = later ++ (word ++ back) ∧
      IsWholeWord later.getLast? back.head? ∧ size front = size comment + size later := by
  obtain ⟨later, rfl, hlater⟩ :=
    exists_append_of_gap_append isNameChar_of_mem_blankOut hne hword h
  refine ⟨later, hlater, ⟨separatesWords_getLast?_of_append hwhole.before, hwhole.behind⟩, ?_⟩
  rw [size_append, size_blankOut]

theorem not_prefix_of_forall {a b c : Char} {rest : Text}
    (h : ∀ tail, c = a → rest = b :: tail → False) : ¬ [a, b] <+: c :: rest := by
  intro hmark
  obtain ⟨rfl, tail, htail⟩ := List.cons_prefix_cons.mp hmark
  exact h tail rfl htail.symm

theorem eq_nil_of_size_eq {s t : Text} (h : size s = size t) (hs : s = []) : t = [] := by
  by_contra ht
  have hpos := size_pos_of_ne_nil ht
  rw [← h, hs] at hpos
  exact absurd hpos (Nat.lt_irrefl 0)

/-- A whole word of the text without comments stands in the text as written, at the same offset
and outside of every comment. The removal passes each comment whole, and any other character
alone. -/
theorem exists_standsOutside {raw front word back : Text} (hne : word ≠ [])
    (hword : ∀ c ∈ word, isNameChar c = true) (hwhole : IsWholeWord front.getLast? back.head?)
    (h : blankComments raw = front ++ (word ++ back)) :
    ∃ before behind, StandsOutside raw before word behind ∧ size before = size front := by
  induction raw using blankComments.induct generalizing front with
  | case1 =>
      rw [blankComments] at h
      simp [hne] at h
  | case2 rest ih =>
      rw [blankComments_line] at h
      obtain ⟨later, hlater, hwhole, hsize⟩ := exists_of_blankOut_append hne hword hwhole h
      obtain ⟨before, behind, hstands, hbefore⟩ := ih hwhole hlater
      have hcomment : '\n' ∉ rest.takeWhile (· != '\n') := fun hmem =>
        absurd (List.mem_takeWhile_imp hmem) (by decide)
      have hend : ∀ c ∈ (rest.dropWhile (· != '\n')).head?, c = '\n' := by
        intro c hc
        simpa using eq_false_of_mem_head?_dropWhile hc
      have hline := hstands.line hne hword hcomment hend
      rw [List.takeWhile_append_dropWhile] at hline
      refine ⟨_, behind, hline, ?_⟩
      rw [hsize, ← List.cons_append, ← List.cons_append, size_append, hbefore]
  | case3 rest comment after hend ih =>
      rw [blankComments_block hend] at h
      obtain ⟨later, hlater, hwhole, hsize⟩ := exists_of_blankOut_append hne hword hwhole h
      obtain ⟨before, behind, hstands, hbefore⟩ := ih hwhole hlater
      obtain ⟨rfl, hfirst⟩ := eq_append_of_splitAtCommentEnd? hend
      refine ⟨_, behind, hstands.block hfirst, ?_⟩
      have hfront : '/' :: '*' :: (comment ++ '*' :: '/' :: before) =
          '/' :: '*' :: (comment ++ ['*', '/']) ++ before := by simp
      rw [hsize, hfront, size_append, hbefore]
  | case4 rest hend =>
      rw [blankComments, hend] at h
      have hmark : ∀ c ∈ ['/', '*'], isNameChar c = false :=
        List.all_iff_forall_prop.mp (by decide)
      obtain ⟨later, rfl, rfl⟩ := exists_append_of_gap_append hmark hne hword h
      have hopen := not_infix_of_splitAtCommentEnd? hend
      exact ⟨'/' :: '*' :: later, back, ⟨rfl, hwhole, .unclosed hopen⟩, rfl⟩
  | case5 c rest hline hblock ih =>
      have hchar : blankComments (c :: rest) = c :: blankComments rest := by
        rw [blankComments]
        · exact hline
        · exact hblock
      rw [hchar] at h
      cases front with
      | nil =>
          obtain ⟨behind, htext, hbehind⟩ :=
            exists_append_of_blankComments hword hwhole.behind (hchar.trans h)
          exact ⟨[], behind, ⟨htext, ⟨rfl, hbehind⟩, .start _⟩, rfl⟩
      | cons d front =>
          obtain ⟨rfl, hrest⟩ := List.cons.inj h
          have hlater : IsWholeWord front.getLast? back.head? :=
            ⟨separatesWords_getLast?_of_append (s := [c]) hwhole.before, hwhole.behind⟩
          obtain ⟨before, behind, hstands, hbefore⟩ := ih hlater hrest
          have hboundary : before = [] → separatesWords (some c) = true := by
            intro hnil
            have hfront := hwhole.before
            rwa [eq_nil_of_size_eq hbefore hnil] at hfront
          exact ⟨c :: before, behind, hstands.char (not_prefix_of_forall hline)
            (not_prefix_of_forall hblock) hboundary, by rw [size_cons, size_cons, hbefore]⟩

/-! ## Characters -/

/-- A character of the text without comments that is not blank stands in the text as written, at
the same offset. -/
theorem exists_eq_append_cons_of_blankComments {raw front back : Text} {c : Char}
    (hc : isBlank c = false) (h : blankComments raw = front ++ c :: back) :
    ∃ before behind, raw = before ++ c :: behind ∧ size before = size front := by
  have hcomment : ∀ comment : Text, c ∉ blankOut comment := by
    intro comment hmem
    rw [isBlank_of_mem_blankOut c hmem] at hc
    cases hc
  induction raw using blankComments.induct generalizing front with
  | case1 =>
      rw [blankComments] at h
      simp at h
  | case2 rest ih =>
      rw [blankComments_line] at h
      obtain ⟨later, rfl, hlater⟩ := exists_append_of_not_mem (hcomment _) h
      obtain ⟨before, behind, hrest, hsize⟩ := ih hlater
      refine ⟨'/' :: '/' :: rest.takeWhile (· != '\n') ++ before, behind, ?_, ?_⟩
      · rw [List.append_assoc, ← hrest, List.cons_append, List.cons_append,
          List.takeWhile_append_dropWhile]
      · rw [size_append, size_append, size_blankOut, hsize]
  | case3 rest comment after hend ih =>
      rw [blankComments_block hend] at h
      obtain ⟨later, rfl, hlater⟩ := exists_append_of_not_mem (hcomment _) h
      obtain ⟨before, behind, rfl, hsize⟩ := ih hlater
      obtain ⟨rfl, -⟩ := eq_append_of_splitAtCommentEnd? hend
      refine ⟨'/' :: '*' :: (comment ++ ['*', '/']) ++ before, behind, by simp, ?_⟩
      rw [size_append, size_append, size_blankOut, hsize]
  | case4 rest hend =>
      rw [blankComments, hend] at h
      exact ⟨front, back, h, rfl⟩
  | case5 d rest hline hblock ih =>
      have hchar : blankComments (d :: rest) = d :: blankComments rest := by
        rw [blankComments]
        · exact hline
        · exact hblock
      rw [hchar] at h
      cases front with
      | nil =>
          obtain ⟨rfl, -⟩ := List.cons.inj h
          exact ⟨[], rest, rfl, rfl⟩
      | cons e front =>
          obtain ⟨rfl, hrest⟩ := List.cons.inj h
          obtain ⟨before, behind, rfl, hsize⟩ := ih hrest
          exact ⟨d :: before, behind, rfl, by rw [size_cons, size_cons, hsize]⟩

end HeaderBindings.Header
