import HeaderBindings.Proofs.Header.BlockMatching
import HeaderBindings.Proofs.Header.CursorRuns
import HeaderBindings.Proofs.Header.UnclosedBlock

/-! # Braces inside of a namespace

The braces of a namespace match, so the text between them opens as many braces as it closes, and no
beginning of it closes more. Hence every rest of that text closes each brace that opens in it, and a
block is found at every brace at which the reading of the functions may arrive, in the order of the
functions or by a recovery in the middle of one. -/

namespace HeaderBindings.Header

open List Text Cursor

variable {s next : Cursor} {opening closing : Char}

/-! ## Moving on -/

/-- The cursor has moved over the first part of its range. -/
def MovesOn (s next : Cursor) : Prop :=
  ∀ before rest after, s = amid before rest after →
    ∃ part left, rest = part ++ left ∧ next = amid (before ++ part) left after

theorem MovesOn.betweenCharacters (h : MovesOn s next) (hs : s.BetweenCharacters) :
    next.BetweenCharacters := by
  obtain ⟨before, rest, after, hamid⟩ := hs.exists_eq_amid
  obtain ⟨part, left, -, rfl⟩ := h before rest after hamid
  exact betweenCharacters_amid _ _ _

theorem MovesOn.text_eq (h : MovesOn s next) (hs : s.BetweenCharacters) : next.text = s.text := by
  obtain ⟨before, rest, after, rfl⟩ := hs.exists_eq_amid
  obtain ⟨part, left, rfl, rfl⟩ := h before rest after rfl
  simp

theorem exists_of_passes {α : Type} {before rest after : Text} {answer : α}
    {outcome : Except BadCut (α × Cursor)} {fits : α → Text → Text → Prop}
    (hpasses : Passes before rest after outcome fits) (h : outcome = .ok (answer, next)) :
    ∃ part left, rest = part ++ left ∧ next = amid (before ++ part) left after := by
  obtain ⟨_, part, left, hrest, houtcome, -⟩ := hpasses
  rw [houtcome] at h
  cases h
  exact ⟨part, left, hrest, rfl⟩

theorem movesOn_of_passKeyword {keyword : Text} {found? : Option ℕ} (hne : keyword ≠ [])
    (h : s.passKeyword keyword = .ok (found?, next)) : MovesOn s next := by
  rintro before rest after rfl
  exact exists_of_passes (searches_passKeyword before rest after hne) h

theorem movesOn_of_skipBlanks (h : s.skipBlanks = .ok next) : MovesOn s next := by
  rintro before rest after rfl
  obtain ⟨part, left, hrest, hskip⟩ := passes_skipBlanks before rest after
  rw [hskip] at h
  cases h
  exact ⟨part, left, hrest, rfl⟩

theorem movesOn_of_name {word? : Option (Text × Span)} (h : s.name = .ok (word?, next)) :
    MovesOn s next := by
  rintro before rest after rfl
  exact exists_of_passes (tries_name before rest after) h

theorem movesOn_of_upToAny {targets : List Char} {target? : Option (Char × ℕ)}
    (h : s.upToAny targets = .ok (target?, next)) : MovesOn s next := by
  rintro before rest after rfl
  exact exists_of_passes (tries_upToAny before rest after targets) h

theorem movesOn_of_block {answer : Except BlockFault (ℕ × ℕ)}
    (h : s.block opening closing = .ok (answer, next)) : MovesOn s next := by
  rintro before rest after rfl
  exact exists_of_passes (tries_block before rest after opening closing) h

theorem movesOn_of_functionRound {scope : Text} {batch : Findings NativeFunction}
    (h : functionRound scope s = .ok (.found batch next)) : MovesOn s next := by
  rintro before rest after rfl
  obtain ⟨part, left, hrest, -, hnext⟩ := exists_next_of_functionRound h
  exact ⟨part, left, hrest, hnext⟩

theorem movesOn_of_namespaceRound {batch : Findings NativeFunction}
    (h : namespaceRound s = .ok (.found batch next)) : MovesOn s next := by
  rintro before rest after rfl
  obtain ⟨part, left, hrest, -, hnext⟩ := exists_next_of_namespaceRound h
  exact ⟨part, left, hrest, hnext⟩

/-! ## Marks and blocks -/

theorem peek_of_upToAny {targets : List Char} {c : Char} {offset : ℕ} (hs : s.BetweenCharacters)
    (h : s.upToAny targets = .ok (some (c, offset), next)) : next.peek = .ok (some c) := by
  obtain ⟨before, rest, after, rfl⟩ := hs.exists_eq_amid
  cases hfound : upToTarget? targets 0 rest with
  | none =>
      rw [upToAny_amid_of_eq_none hfound] at h
      cases h
  | some found =>
      obtain ⟨part, mark⟩ := found
      obtain ⟨-, left, rfl⟩ := eq_append_of_upToTarget? hfound
      rw [upToAny_amid hfound] at h
      cases h
      exact peek_amid _ _ _

theorem exists_inside_of_block (hne : opening ≠ closing) (hopening : opening.utf8Size = 1)
    (hs : s.BetweenCharacters) {start stop : ℕ}
    (h : s.block opening closing = .ok (.ok (start, stop), next)) :
    ∃ inside, slice (start + 1) stop s.text = .ok inside ∧ Balanced opening closing inside := by
  obtain ⟨answer, last, hblock, hmatches⟩ := exists_matchesExactly hne hs
  rw [h] at hblock
  cases hblock
  rw [← hopening]
  exact (hmatches.inside rfl).1

theorem InsideBraces.betweenCharacters (hs : InsideBraces s) : s.BetweenCharacters := by
  obtain ⟨before, front, left, after, rfl, -⟩ := hs
  exact betweenCharacters_amid before left after

theorem InsideBraces.of_slice {t inside : Text} {start stop : ℕ}
    (hslice : slice start stop t = .ok inside) (hinside : Balanced '{' '}' inside) :
    InsideBraces ⟨t, start, stop⟩ := by
  obtain ⟨before, after, rfl, rfl, rfl⟩ := exists_of_slice hslice
  exact ⟨before, [], inside, after, by rw [amid, size_append], hinside⟩

/-- Wherever the cursor moves to, the braces behind it close. -/
theorem InsideBraces.movesOn (hs : InsideBraces s) (h : MovesOn s next) : InsideBraces next := by
  obtain ⟨before, front, rest, after, rfl, hbraces⟩ := hs
  obtain ⟨part, left, rfl, rfl⟩ := h before rest after rfl
  exact ⟨before ++ part, front ++ part, left, after, rfl, by rwa [List.append_assoc]⟩

theorem InsideBraces.exists_block (hs : InsideBraces s) (hpeek : s.peek = .ok (some '{')) :
    ∃ range next, s.block '{' '}' = .ok (.ok range, next) := by
  obtain ⟨before, front, rest, after, rfl, hbraces⟩ := hs
  rw [peek_amid] at hpeek
  obtain ⟨left, rfl⟩ := List.head?_eq_some_iff.mp (Except.ok.inj hpeek)
  rcases block_amid_cases (by decide : '{' ≠ '}') before left after with
    ⟨hnone, -⟩ | ⟨inside, left, rfl, -, hblock⟩
  · exact absurd hnone (hbraces.blockInside?_ne_none (by decide))
  · exact ⟨_, _, hblock⟩

/-! ## Rounds -/

section

variable {scope head result name list : Text} {start offset paren first last : ℕ}
  {range : ℕ × ℕ} {s₁ s₂ s₃ s₄ : Cursor}

theorem functionRound_of_brace (hkeyword : s.passKeyword "static" = .ok (some start, s₁))
    (hmark : s₁.upToAny headEnds = .ok (some ('{', offset), s₂))
    (hblock : s₂.block '{' '}' = .ok (.ok range, next)) :
    functionRound scope s = .ok (.found (.problem (.notAFunction scope start offset)) next) := by
  rw [functionRound, hkeyword, ok_bind]
  simp only
  rw [hmark, ok_bind]
  simp only
  split
  next h => cases h
  next paren h => exact absurd h (by simp)
  next found offset hother h =>
    obtain ⟨rfl, rfl⟩ := Prod.mk.inj (Option.some.inj h)
    rw [if_pos rfl, hblock]
    rfl

theorem functionRound_of_body (hkeyword : s.passKeyword "static" = .ok (some start, s₁))
    (hmark : s₁.upToAny headEnds = .ok (some ('(', paren), s₂))
    (hhead : slice s₁.pos paren s₂.text = .ok head)
    (hsignature : signature? head = .ok (some (result, name)))
    (hparens : s₂.block '(' ')' = .ok (.ok (first, last), s₃))
    (hskip : s₃.skipBlanks = .ok s₄) (hpeek : s₄.peek = .ok (some '{'))
    (hblock : s₄.block '{' '}' = .ok (.ok range, next))
    (hlist : slice (first + 1) last s₄.text = .ok list) :
    functionRound scope s = .ok (.found
      (.item ⟨scope, result, name, parameters list, .between start next.pos⟩) next) := by
  rw [functionRound, hkeyword, ok_bind]
  simp only
  rw [hmark, ok_bind]
  simp only
  rw [hhead, ok_bind, hsignature, ok_bind]
  simp only
  rw [hparens, ok_bind]
  simp only
  rw [hskip, ok_bind, hpeek, ok_bind, if_neg (by simp), hblock, ok_bind]
  simp only
  rw [hlist]
  rfl

end

/-! ## Places -/

/-- The cursors from which the reading of a header looks for the next namespace. -/
inductive HeaderPlace (t : Text) : Cursor → Prop
  | start : HeaderPlace t (.ofText t)
  | next {s next : Cursor} {batch : Findings NativeFunction} (hs : HeaderPlace t s)
      (hround : namespaceRound s = .ok (.found batch next)) : HeaderPlace t next

/-- The cursors from which the reading of a header looks for the next function of a namespace: at
the beginning of the body, and wherever a round has left off. -/
inductive BodyPlace (t scope : Text) : Cursor → Prop
  | start {s s₁ s₂ s₃ s₄ next : Cursor} {start opening closing : ℕ} {place : Span}
      (hs : HeaderPlace t s) (hkeyword : s.passKeyword "namespace" = .ok (some start, s₁))
      (hgap : s₁.skipBlanks = .ok s₂) (hname : s₂.name = .ok (some (scope, place), s₃))
      (hspace : s₃.skipBlanks = .ok s₄)
      (hblock : s₄.block '{' '}' = .ok (.ok (opening, closing), next)) :
      BodyPlace t scope ⟨s₄.text, opening + 1, closing⟩
  | next {s next : Cursor} {batch : Findings NativeFunction} (hs : BodyPlace t scope s)
      (hround : functionRound scope s = .ok (.found batch next)) : BodyPlace t scope next

theorem HeaderPlace.betweenCharacters {t : Text} (h : HeaderPlace t s) : s.BetweenCharacters := by
  induction h with
  | start =>
      rw [ofText_eq_amid]
      exact betweenCharacters_amid _ _ _
  | next hs hround ih => exact (movesOn_of_namespaceRound hround).betweenCharacters ih

theorem BodyPlace.insideBraces {t scope : Text} (h : BodyPlace t scope s) : InsideBraces s := by
  induction h with
  | start hs hkeyword hgap hname hspace hblock =>
      have hpassed := movesOn_of_passKeyword (by decide) hkeyword
      have hs₁ := hpassed.betweenCharacters hs.betweenCharacters
      have hs₂ := (movesOn_of_skipBlanks hgap).betweenCharacters hs₁
      have hs₃ := (movesOn_of_name hname).betweenCharacters hs₂
      have hs₄ := (movesOn_of_skipBlanks hspace).betweenCharacters hs₃
      obtain ⟨inside, hslice, hinside⟩ :=
        exists_inside_of_block (by decide : '{' ≠ '}') (by decide) hs₄ hblock
      exact .of_slice hslice hinside
  | next hs hround ih => exact ih.movesOn (movesOn_of_functionRound hround)

/-- From the cursor on, neither search for a block at a brace fails. A keyword that leads to a brace
is reported, and the block is passed. A function that leads to the brace of its body is read. -/
structure BracesClose (scope : Text) (s : Cursor) : Prop where
  stray {start offset : ℕ} {s₁ s₂ : Cursor}
    (hkeyword : s.passKeyword "static" = .ok (some start, s₁))
    (hmark : s₁.upToAny headEnds = .ok (some ('{', offset), s₂)) :
    ∃ range next, s₂.block '{' '}' = .ok (.ok range, next) ∧
      functionRound scope s = .ok (.found (.problem (.notAFunction scope start offset)) next)
  body {start paren first last : ℕ} {head result name : Text} {s₁ s₂ s₃ s₄ : Cursor}
    (hkeyword : s.passKeyword "static" = .ok (some start, s₁))
    (hmark : s₁.upToAny headEnds = .ok (some ('(', paren), s₂))
    (hhead : slice s₁.pos paren s₂.text = .ok head)
    (hsignature : signature? head = .ok (some (result, name)))
    (hparens : s₂.block '(' ')' = .ok (.ok (first, last), s₃))
    (hskip : s₃.skipBlanks = .ok s₄) (hpeek : s₄.peek = .ok (some '{')) :
    ∃ range next list, s₄.block '{' '}' = .ok (.ok range, next) ∧
      slice (first + 1) last s₄.text = .ok list ∧
      functionRound scope s = .ok (.found
        (.item ⟨scope, result, name, parameters list, .between start next.pos⟩) next)

theorem InsideBraces.bracesClose (hs : InsideBraces s) (scope : Text) : BracesClose scope s where
  stray hkeyword hmark := by
    have hs₁ := hs.movesOn (movesOn_of_passKeyword (by decide) hkeyword)
    have hs₂ := hs₁.movesOn (movesOn_of_upToAny hmark)
    obtain ⟨range, next, hblock⟩ := hs₂.exists_block (peek_of_upToAny hs₁.betweenCharacters hmark)
    exact ⟨range, next, hblock, functionRound_of_brace hkeyword hmark hblock⟩
  body hkeyword hmark hhead hsignature hparens hskip hpeek := by
    have hs₁ := hs.movesOn (movesOn_of_passKeyword (by decide) hkeyword)
    have hs₂ := hs₁.movesOn (movesOn_of_upToAny hmark)
    have hs₃ := hs₂.movesOn (movesOn_of_block hparens)
    have hmoved := movesOn_of_skipBlanks hskip
    obtain ⟨range, next, hblock⟩ := (hs₃.movesOn hmoved).exists_block hpeek
    obtain ⟨list, hlist, -⟩ :=
      exists_inside_of_block (by decide : '(' ≠ ')') (by decide) hs₂.betweenCharacters hparens
    rw [← (movesOn_of_block hparens).text_eq hs₂.betweenCharacters,
      ← hmoved.text_eq hs₃.betweenCharacters] at hlist
    refine ⟨range, next, list, hblock, hlist, ?_⟩
    exact functionRound_of_body hkeyword hmark hhead hsignature hparens hskip hpeek hblock hlist

/-- Wherever the reading of a namespace arrives, and whatever was recovered from before, every brace
that is met there closes. -/
theorem bracesClose_of_bodyPlace {t scope : Text} (h : BodyPlace t scope s) : BracesClose scope s :=
  h.insideBraces.bracesClose scope

/-- The list of `f` is never closed, so reading goes on at `g` in the middle of a block, where the
body of `g` closes. The variable `x` stands behind a closing brace that no round has opened, and the
braces behind it close as well. -/
theorem bracesClose_behind_recovery :
    let t : Text :=
      "namespace A\x7b static int f(int\x7b static void g()\x7b\x7d \x7d static int x\x7b\x7d \x7d"
    let first : Cursor := ⟨t, 31, 66⟩
    let second : Cursor := ⟨t, 48, 66⟩
    BodyPlace t "A" first ∧ BracesClose "A" first ∧
      functionRound "A" first = .ok (.found (.item ⟨"A", "void", "g", [], ⟨31, 48⟩⟩) second) ∧
    BodyPlace t "A" second ∧ BracesClose "A" second ∧
      functionRound "A" second =
        .ok (.found (.problem (.notAFunction "A" 51 63)) ⟨t, 65, 66⟩) := by
  intro t first second
  have hkeyword : (ofText t).passKeyword "namespace" = .ok (some 0, ⟨t, 9, 67⟩) := by decide +kernel
  have hgap : skipBlanks ⟨t, 9, 67⟩ = .ok ⟨t, 10, 67⟩ := by decide +kernel
  have hname : name ⟨t, 10, 67⟩ = .ok (some ("A", ⟨10, 11⟩), ⟨t, 11, 67⟩) := by decide +kernel
  have hspace : skipBlanks ⟨t, 11, 67⟩ = .ok ⟨t, 11, 67⟩ := by decide +kernel
  have hblock : block '{' '}' ⟨t, 11, 67⟩ = .ok (.ok (11, 66), ⟨t, 67, 67⟩) := by decide +kernel
  have hrecovery : functionRound "A" ⟨t, 12, 66⟩ =
      .ok (.found (.problem (.functionBlock "A" "f" (.unterminated '(' 25) 13 25)) first) := by
    decide +kernel
  have hread : functionRound "A" first =
      .ok (.found (.item ⟨"A", "void", "g", [], ⟨31, 48⟩⟩) second) := by decide +kernel
  have hstray : functionRound "A" second =
      .ok (.found (.problem (.notAFunction "A" 51 63)) ⟨t, 65, 66⟩) := by decide +kernel
  have hfirst : BodyPlace t "A" first :=
    .next (.start .start hkeyword hgap hname hspace hblock) hrecovery
  have hsecond : BodyPlace t "A" second := .next hfirst hread
  exact ⟨hfirst, bracesClose_of_bodyPlace hfirst, hread, hsecond, bracesClose_of_bodyPlace hsecond,
    hstray⟩

end HeaderBindings.Header
