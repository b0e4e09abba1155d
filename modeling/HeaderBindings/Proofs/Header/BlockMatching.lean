import HeaderBindings.Proofs.Header.Boundaries
import HeaderBindings.Proofs.Header.Moves
import Mathlib.Order.Bounds.Basic

/-! # Where a block ends

A block ends at the first character up to which its text closes as often as it opens, whatever is
nested in it. The count of open blocks is never taken below zero. Without such a character the
block is unterminated, and a text that does not start with the opening mark holds no block. -/

namespace HeaderBindings.Header

open List Text Cursor

variable {opening closing : Char}

theorem neverCloses_of_blockInside?_eq_none (hne : opening ≠ closing) {t : Text}
    (h : blockInside? opening closing 0 t = none) : NeverCloses opening closing t := by
  intro start hstart
  obtain ⟨rest, rfl⟩ := (List.mem_inits _ _).mp hstart
  have hnone : blockInside? opening closing 0 start = none := by
    cases hinside : blockInside? opening closing 0 start with
    | none => rfl
    | some inside =>
        obtain ⟨⟨back, rfl⟩, hbalanced⟩ := balanced_of_blockInside? hne hinside
        rw [List.append_assoc, List.cons_append, blockInside?_of_balanced hne hbalanced] at h
        cases h
  have hcount := count_le_of_blockInside?_eq_none hne hnone
  omega

/-! ## The end of a block -/

/-- The text from the cursor up to the character at the offset closes as often as it opens. -/
def EvensOut (opening closing : Char) (s : Cursor) (offset : Nat) : Prop :=
  ∃ front c behind, s.rest = .ok (front ++ c :: behind) ∧ offset = s.pos + size front ∧
    (front ++ [c]).count closing = (front ++ [c]).count opening

section

variable {before after : Text}

/-- The first mark opens, so the text behind it closes once more than it opens. -/
theorem evensOut_amid_iff (hne : opening ≠ closing) {inner : Text} {offset : Nat} :
    EvensOut opening closing (amid before (opening :: inner) after) offset ↔
      ∃ front c behind, inner = front ++ c :: behind ∧
        offset = size before + opening.utf8Size + size front ∧
        (front ++ [c]).count closing = (front ++ [c]).count opening + 1 := by
  constructor
  · rintro ⟨front, c, behind, hrest, rfl, hcount⟩
    rw [rest_amid] at hrest
    have hrest := Except.ok.inj hrest
    cases front with
    | nil =>
        obtain ⟨rfl, -⟩ := List.cons.inj hrest
        rw [List.nil_append, List.count_cons_of_ne hne, List.count_cons_self] at hcount
        cases hcount
    | cons d front =>
        obtain ⟨rfl, rfl⟩ := List.cons.inj hrest
        rw [List.cons_append, List.count_cons_of_ne hne, List.count_cons_self] at hcount
        exact ⟨front, c, behind, rfl, by simp [Nat.add_assoc], hcount⟩
  · rintro ⟨front, c, behind, rfl, rfl, hcount⟩
    refine ⟨opening :: front, c, behind, rest_amid _ _ _, by simp [Nat.add_assoc], ?_⟩
    rw [List.cons_append, List.count_cons_of_ne hne, List.count_cons_self]
    exact hcount

/-- A block evens out at its closing mark, and nowhere before it. -/
theorem isLeast_evensOut (before after : Text) (hne : opening ≠ closing) {inside : Text}
    (hinside : Balanced opening closing inside) (left : Text) :
    IsLeast
      {offset | EvensOut opening closing
        (amid before (opening :: (inside ++ closing :: left)) after) offset}
      (size before + opening.utf8Size + size inside) := by
  have hbalance := hinside.count_eq
  constructor
  · refine (evensOut_amid_iff hne).mpr ⟨inside, closing, left, rfl, rfl, ?_⟩
    rw [List.count_append, List.count_append, List.count_singleton_self,
      List.count_cons_of_ne hne.symm, List.count_nil]
    omega
  · intro offset hoffset
    obtain ⟨front, c, behind, hsplit, rfl, hcount⟩ := (evensOut_amid_iff hne).mp hoffset
    have hlonger : ¬ front ++ [c] <+: inside := by
      intro hstart
      have hclosed := hinside.closed_le _ ((List.mem_inits _ _).mpr hstart)
      omega
    have hfront : front ++ [c] <+: inside ++ closing :: left := ⟨behind, by simp [hsplit]⟩
    have hprefix : inside <+: front ++ [c] := by
      rcases List.prefix_or_prefix_of_prefix hfront (List.prefix_append _ _) with hstart | hstart
      · exact absurd hstart hlonger
      · exact hstart
    rcases List.prefix_concat_iff.mp hprefix with rfl | ⟨rest, rfl⟩
    · exact absurd List.prefix_rfl hlonger
    · rw [size_append]
      omega

theorem not_evensOut (before after : Text) (hne : opening ≠ closing) {inner : Text}
    (h : NeverCloses opening closing inner) (offset : Nat) :
    ¬ EvensOut opening closing (amid before (opening :: inner) after) offset := by
  intro hoffset
  obtain ⟨front, c, behind, rfl, -, hcount⟩ := (evensOut_amid_iff hne).mp hoffset
  have hclosed := h (front ++ [c]) ((List.mem_inits _ _).mpr ⟨behind, by simp⟩)
  omega

theorem neverCloses_of_le_of_evensOut (hne : opening ≠ closing) {front behind : Text}
    (h : ∀ offset, EvensOut opening closing (amid before (opening :: (front ++ behind)) after)
      offset → size before + size (opening :: front) ≤ offset) :
    NeverCloses opening closing front := by
  apply neverCloses_of_blockInside?_eq_none hne
  cases hinside : blockInside? opening closing 0 front with
  | none => rfl
  | some inside =>
      obtain ⟨⟨back, rfl⟩, hbalanced⟩ := balanced_of_blockInside? hne hinside
      rw [List.append_assoc] at h
      have hend := h _ (isLeast_evensOut _ after hne hbalanced (back ++ behind)).1
      have hclosing := one_le_utf8Size closing
      rw [size_cons, size_append, size_cons] at hend
      omega

end

/-! ## Blocks at a cursor -/

/-- What the search for a block may answer at a cursor, and where it may leave it. -/
structure MatchesExactly (opening closing : Char) (s : Cursor)
    (answer : Except BlockFault (Nat × Nat)) (next : Cursor) : Prop where
  expected_iff : answer = .error (.expected opening s.pos) ↔ s.peek ≠ .ok (some opening)
  found_iff (start stop : Nat) : answer = .ok (start, stop) ↔
    s.peek = .ok (some opening) ∧ start = s.pos ∧
      IsLeast {offset | EvensOut opening closing s offset} stop
  unterminated_iff : answer = .error (.unterminated opening s.pos) ↔
    s.peek = .ok (some opening) ∧ ∀ offset, ¬ EvensOut opening closing s offset
  inside {start stop : Nat} (h : answer = .ok (start, stop)) :
    (∃ inside, slice (start + opening.utf8Size) stop s.text = .ok inside ∧
      Balanced opening closing inside) ∧ next = { s with pos := stop + closing.utf8Size }
  stays {fault : BlockFault} (h : answer = .error fault) : next = s
  /-- Up to where the block evens out, the search has as many blocks open as the text behind the
  first mark has opened and not closed, and this text has closed no more than it has opened. -/
  depth {front behind : Text} (hrest : s.rest = .ok (opening :: (front ++ behind)))
    (h : ∀ offset, EvensOut opening closing s offset → s.pos + size (opening :: front) ≤ offset) :
    NeverCloses opening closing front ∧
      blockInside? opening closing 0 (front ++ behind) =
        (blockInside? opening closing (front.count opening - front.count closing) behind).map
          (front ++ ·)

section

variable {before rest after : Text}

theorem matchesExactly_expected (h : rest.head? ≠ some opening) (closing : Char) :
    MatchesExactly opening closing (amid before rest after)
      (.error (.expected opening (size before))) (amid before rest after) := by
  have hpeek : (amid before rest after).peek ≠ .ok (some opening) := by
    rw [peek_amid]
    exact fun hok => h (Except.ok.inj hok)
  refine ⟨iff_of_true rfl hpeek, fun start stop => ?_, ?_, nofun, fun _ => rfl, ?_⟩
  · exact iff_of_false nofun fun hfound => hpeek hfound.1
  · exact iff_of_false nofun fun hfound => hpeek hfound.1
  · intro front behind hrest
    rw [rest_amid] at hrest
    exact absurd (congrArg List.head? (Except.ok.inj hrest)) h

theorem depth_amid (hne : opening ≠ closing) {inner front behind : Text}
    (hrest : (amid before (opening :: inner) after).rest = .ok (opening :: (front ++ behind)))
    (h : ∀ offset, EvensOut opening closing (amid before (opening :: inner) after) offset →
      size before + size (opening :: front) ≤ offset) :
    NeverCloses opening closing front ∧
      blockInside? opening closing 0 (front ++ behind) =
        (blockInside? opening closing (front.count opening - front.count closing) behind).map
          (front ++ ·) := by
  rw [rest_amid] at hrest
  obtain rfl : inner = front ++ behind := (List.cons.inj (Except.ok.inj hrest)).2
  have hfront := neverCloses_of_le_of_evensOut hne h
  refine ⟨hfront, ?_⟩
  rw [blockInside?_append hne, Nat.zero_add]
  intro start hstart
  rw [Nat.zero_add]
  exact hfront start ((List.mem_inits _ _).mpr hstart)

theorem matchesExactly_unterminated (hne : opening ≠ closing) {inner : Text}
    (h : NeverCloses opening closing inner) :
    MatchesExactly opening closing (amid before (opening :: inner) after)
      (.error (.unterminated opening (size before))) (amid before (opening :: inner) after) := by
  have hpeek : (amid before (opening :: inner) after).peek = .ok (some opening) := peek_amid _ _ _
  have hnever := not_evensOut before after hne h
  refine ⟨iff_of_false nofun fun hother => hother hpeek, fun start stop => ?_,
    iff_of_true rfl ⟨hpeek, hnever⟩, nofun, fun _ => rfl, depth_amid hne⟩
  exact iff_of_false nofun fun hfound => hnever stop hfound.2.2.1

theorem matchesExactly_found (hne : opening ≠ closing) {inside left : Text}
    (h : Balanced opening closing inside) :
    MatchesExactly opening closing (amid before (opening :: (inside ++ closing :: left)) after)
      (.ok (size before, size before + opening.utf8Size + size inside))
      (amid (before ++ opening :: (inside ++ [closing])) left after) := by
  have hpeek : (amid before (opening :: (inside ++ closing :: left)) after).peek =
      .ok (some opening) := peek_amid _ _ _
  have hleast := isLeast_evensOut before after hne h left
  refine ⟨iff_of_false nofun fun hother => hother hpeek, fun start stop => ?_,
    iff_of_false nofun fun hnone => hnone.2 _ hleast.1, ?_, nofun, depth_amid hne⟩
  · constructor
    · intro hfound
      cases hfound
      exact ⟨hpeek, rfl, hleast⟩
    · rintro ⟨-, rfl, hstop⟩
      rw [hstop.unique hleast]
      rfl
  · intro start stop hfound
    cases hfound
    refine ⟨⟨inside, ?_, h⟩, ?_⟩
    · exact slice_eq_ok (before ++ [opening]) inside (closing :: left ++ after) (by simp)
        (by simp) (by simp)
    · simp [amid, Nat.add_assoc]

end

theorem exists_matchesExactly (hne : opening ≠ closing) {s : Cursor} (hs : s.BetweenCharacters) :
    ∃ answer next, s.block opening closing = .ok (answer, next) ∧
      MatchesExactly opening closing s answer next := by
  obtain ⟨before, rest, after, rfl⟩ := hs.exists_eq_amid
  by_cases hopen : rest.head? = some opening
  · obtain ⟨inner, rfl⟩ := List.head?_eq_some_iff.mp hopen
    rcases block_amid_cases hne before inner after with
      ⟨hnone, hblock⟩ | ⟨inside, left, rfl, hinside, hblock⟩
    · exact ⟨_, _, hblock,
        matchesExactly_unterminated hne (neverCloses_of_blockInside?_eq_none hne hnone)⟩
    · exact ⟨_, _, hblock, matchesExactly_found hne hinside⟩
  · exact ⟨_, _, block_amid_of_ne hopen closing, matchesExactly_expected hopen closing⟩

theorem exists_block_eq_error {s : Cursor} (hs : ¬ s.BetweenCharacters) (opening closing : Char) :
    ∃ cut, s.block opening closing = .error cut := by
  obtain ⟨cut, hcut⟩ := exists_rest_eq_error hs
  exact ⟨cut, by rw [block, hcut, error_bind]⟩

/-- At every cursor between characters the search for a block meets no bad cut, and the block that
it finds ends where the marks even out. At every other cursor it fails. -/
theorem block_matchesExactly (hne : opening ≠ closing) (s : Cursor) :
    (s.BetweenCharacters → ∃ answer next, s.block opening closing = .ok (answer, next) ∧
      MatchesExactly opening closing s answer next) ∧
    (¬ s.BetweenCharacters → ∃ cut, s.block opening closing = .error cut) :=
  ⟨exists_matchesExactly hne, fun hs => exists_block_eq_error hs opening closing⟩

/-- The marks take two bytes each, and a block is nested in the block. -/
theorem block_matchesExactly_quotes :
    let s : Cursor := ⟨"é«a «ß» b» »", 2, 19⟩
    s.block '«' '»' = .ok (.ok (2, 14), { s with pos := 16 }) ∧
      MatchesExactly '«' '»' s (.ok (2, 14)) { s with pos := 16 } := by
  intro s
  have hblock : s.block '«' '»' = .ok (.ok (2, 14), { s with pos := 16 }) := by decide +kernel
  obtain ⟨answer, next, hanswer, hmatches⟩ :=
    (block_matchesExactly (by decide : '«' ≠ '»') s).1 (by decide)
  rw [hblock] at hanswer
  cases hanswer
  exact ⟨hblock, hmatches⟩

end HeaderBindings.Header
