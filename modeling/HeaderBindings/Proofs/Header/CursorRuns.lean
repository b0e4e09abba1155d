import HeaderBindings.Header.CursorStep
import HeaderBindings.Proofs.Header.Boundaries
import HeaderBindings.Proofs.Header.Moves

/-! # Runs of a cursor

Whatever is asked of a cursor, and in whatever order, it stays between characters and within its
range, and no cut fails. Only a jump takes it back. What fails leaves the cursor where it is, or,
if it was a search for a word, at the end of the range. -/

namespace HeaderBindings.Header

open List Text Cursor

/-! ## What the operations pass -/

section Searches

variable {keyword : Text} {t : Text}

/-- Whatever the keyword is, a search outside of braces finds it where it stands. -/
theorem exists_append_of_offsetOfKeyword? (hne : keyword ≠ []) {depth offset : Nat}
    {before? : Option Char} (h : offsetOfKeyword? keyword depth before? t = some offset) :
    ∃ front back, t = front ++ (keyword ++ back) ∧ offset = size front := by
  induction t generalizing depth before? offset with
  | nil => cases h
  | cons c t ih =>
      rw [offsetOfKeyword?] at h
      split at h
      next hfound =>
        cases h
        obtain ⟨rest, hrest⟩ := Option.isSome_iff_exists.mp (Bool.and_eq_true_iff.mp hfound).2
        exact ⟨[], rest, (afterWord?_eq_some_iff.mp hrest).1, rfl⟩
      next =>
        rw [if_neg (by simp [hne])] at h
        obtain ⟨later, hlater, rfl⟩ := Option.map_eq_some_iff.mp h
        obtain ⟨front, back, rfl, rfl⟩ := ih hlater
        exact ⟨c :: front, back, rfl, rfl⟩

theorem exists_append_of_upToWord? {before? : Option Char} {part : Text}
    (h : upToWord? keyword before? t = some part) : ∃ back, t = part ++ (keyword ++ back) := by
  induction before?, t using upToWord?.induct keyword generalizing part with
  | case1 before? hempty =>
      rw [upToWord?, if_pos hempty] at h
      rw [Bool.and_eq_true, List.isEmpty_iff] at hempty
      cases h
      exact ⟨[], by rw [hempty.1]; rfl⟩
  | case2 before? hempty =>
      rw [upToWord?, if_neg hempty] at h
      cases h
  | case3 before? c rest hstart hword =>
      rw [upToWord?, if_pos hstart, if_pos hword] at h
      cases h
      obtain ⟨back, hback⟩ := Option.isSome_iff_exists.mp hword
      exact ⟨back, (afterWord?_eq_some_iff.mp hback).1⟩
  | case4 before? c rest hstart hword skipped =>
      rename_i ih
      rw [upToWord?, if_pos hstart, if_neg hword] at h
      obtain ⟨later, hlater, rfl⟩ := Option.map_eq_some_iff.mp h
      obtain ⟨back, hback⟩ := ih hlater
      refine ⟨back, ?_⟩
      have hdrop : rest.drop (keyword.length - 1) = (c :: rest).drop (max keyword.length 1) := by
        rw [show max keyword.length 1 = keyword.length - 1 + 1 by omega, List.drop_succ_cons]
      rw [List.append_assoc, ← hback, hdrop]
      exact (List.take_append_drop _ _).symm
  | case5 before? c rest hstart ih =>
      rw [upToWord?, if_neg hstart] at h
      obtain ⟨later, hlater, rfl⟩ := Option.map_eq_some_iff.mp h
      obtain ⟨back, rfl⟩ := ih hlater
      exact ⟨back, rfl⟩

theorem exists_append_of_blockInside? {opening closing : Char} {depth : Nat} {inside : Text}
    (h : blockInside? opening closing depth t = some inside) :
    ∃ back, t = inside ++ closing :: back := by
  induction t generalizing depth inside with
  | nil => cases h
  | cons c t ih =>
      have hlater : ∀ depth, (blockInside? opening closing depth t).map (c :: ·) = some inside →
          ∃ back, c :: t = inside ++ closing :: back := by
        intro depth h
        obtain ⟨later, hlater, rfl⟩ := Option.map_eq_some_iff.mp h
        obtain ⟨back, rfl⟩ := ih hlater
        exact ⟨back, rfl⟩
      rw [blockInside?.eq_def] at h
      simp only at h
      split at h
      next => exact hlater _ h
      next =>
        split at h
        next hclosing =>
          cases depth with
          | zero =>
              cases h
              exact ⟨t, by rw [hclosing, List.nil_append]⟩
          | succ depth => exact hlater depth h
        next => exact hlater depth h

end Searches

/-- What the operation looked for is not there. -/
def CursorReply.IsFailure : CursorReply → Prop
  | flag false | name none | offset none | target none | block (.error _) => True
  | _ => False

/-- An operation moves over the first part of the range, and its answer fits what it has passed and
what it has left. -/
def Passes {α : Type} (before rest after : Text) (outcome : Except BadCut (α × Cursor))
    (fits : α → Text → Text → Prop) : Prop :=
  ∃ answer part left, rest = part ++ left ∧
    outcome = .ok (answer, amid (before ++ part) left after) ∧ fits answer part left

/-- An operation that passes nothing if it fails. -/
def Tries {α : Type} (wrap : α → CursorReply) (before rest after : Text)
    (outcome : Except BadCut (α × Cursor)) : Prop :=
  Passes before rest after outcome fun answer part _ => (wrap answer).IsFailure → part = []

/-- An operation that passes everything if it fails. -/
def Searches {α : Type} (wrap : α → CursorReply) (before rest after : Text)
    (outcome : Except BadCut (α × Cursor)) : Prop :=
  Passes before rest after outcome fun answer _ left => (wrap answer).IsFailure → left = []

section

variable (before rest after : Text)

theorem passes_skipBlanks :
    ∃ part left, rest = part ++ left ∧
      (amid before rest after).skipBlanks = .ok (amid (before ++ part) left after) := by
  obtain ⟨blanks, left, rfl, hblanks, hleft⟩ := exists_run_append isBlank rest
  exact ⟨blanks, left, rfl, skipBlanks_amid hblanks hleft⟩

theorem tries_accept (c : Char) :
    Tries .flag before rest after ((amid before rest after).accept c) := by
  by_cases hc : rest.head? = some c
  · obtain ⟨left, rfl⟩ := List.head?_eq_some_iff.mp hc
    exact ⟨true, [c], left, rfl, accept_amid c before left after, False.elim⟩
  · refine ⟨false, [], rest, rfl, ?_, fun _ => rfl⟩
    rw [accept, peek_amid, ok_bind, if_neg hc, List.append_nil]
    rfl

theorem tries_name : Tries .name before rest after (amid before rest after).name := by
  obtain ⟨word, left, rfl, hword, hleft⟩ := exists_run_append isNameChar rest
  by_cases hne : word = []
  · subst hne
    refine ⟨none, [], left, rfl, ?_, fun _ => rfl⟩
    rw [List.append_nil]
    exact name_amid_of_head? hleft
  · exact ⟨_, word, left, rfl, name_amid hne hword hleft, False.elim⟩

theorem searches_passKeyword {keyword : Text} (hne : keyword ≠ []) :
    Searches .offset before rest after ((amid before rest after).passKeyword keyword) := by
  by_cases hrest : rest = []
  · subst hrest
    exact ⟨none, [], [], rfl, by simp [passKeyword, amid], fun _ => rfl⟩
  cases hfound : offsetOfKeyword? keyword 0 before.getLast? rest with
  | none =>
      refine ⟨none, rest, [], (List.append_nil rest).symm, ?_, fun _ => rfl⟩
      rw [passKeyword_amid keyword hrest, hfound]
  | some offset =>
      obtain ⟨front, back, rfl, rfl⟩ := exists_append_of_offsetOfKeyword? hne hfound
      refine ⟨some (size before + size front), front ++ keyword, back, by simp, ?_, False.elim⟩
      rw [passKeyword_amid keyword hrest, hfound]
      simp [amid, Nat.add_assoc]

theorem passes_seekWord (keyword : Text) :
    Passes before rest after ((amid before rest after).seekWord keyword) fun found _ left =>
      (found = true → keyword <+: left) ∧ (found = false → left = []) := by
  rw [seekWord, rest_amid, ok_bind, pos_amid, splitFrom_amid]
  cases hfound : upToWord? keyword before.getLast? rest with
  | none =>
      refine ⟨false, rest, [], (List.append_nil rest).symm, ?_, by simp, fun _ => rfl⟩
      simp [amid]
  | some part =>
      obtain ⟨back, rfl⟩ := exists_append_of_upToWord? hfound
      refine ⟨true, part, keyword ++ back, rfl, ?_, fun _ => List.prefix_append _ _, by simp⟩
      simp only [advance_amid, pure_eq_ok]

theorem searches_seekWord (keyword : Text) :
    Searches .flag before rest after ((amid before rest after).seekWord keyword) := by
  obtain ⟨found, part, left, hrest, hseek, -, hend⟩ := passes_seekWord before rest after keyword
  refine ⟨found, part, left, hrest, hseek, fun hfailure => ?_⟩
  cases found with
  | false => exact hend rfl
  | true => exact hfailure.elim

theorem searches_passWord (keyword : Text) :
    Searches .offset before rest after ((amid before rest after).passWord keyword) := by
  obtain ⟨found, part, left, rfl, hseek, hprefix, hend⟩ :=
    passes_seekWord before rest after keyword
  rw [passWord, hseek, ok_bind]
  cases found with
  | false => exact ⟨none, part, left, rfl, rfl, fun _ => hend rfl⟩
  | true =>
      obtain ⟨back, rfl⟩ := hprefix rfl
      refine ⟨some (size (before ++ part)), part ++ keyword, back, by simp, ?_, False.elim⟩
      simp only [pos_amid, advance_amid, pure_eq_ok, List.append_assoc]

theorem tries_upToAny (targets : List Char) :
    Tries .target before rest after ((amid before rest after).upToAny targets) := by
  cases hfound : upToTarget? targets 0 rest with
  | none =>
      refine ⟨none, [], rest, rfl, ?_, fun _ => rfl⟩
      rw [List.append_nil]
      exact upToAny_amid_of_eq_none hfound
  | some found =>
      obtain ⟨part, c⟩ := found
      obtain ⟨-, back, rfl⟩ := eq_append_of_upToTarget? hfound
      exact ⟨_, part, c :: back, rfl, upToAny_amid hfound, False.elim⟩

theorem tries_block (opening closing : Char) :
    Tries .block before rest after ((amid before rest after).block opening closing) := by
  by_cases hopen : rest.head? = some opening
  · obtain ⟨inner, rfl⟩ := List.head?_eq_some_iff.mp hopen
    cases hinside : blockInside? opening closing 0 inner with
    | none =>
        refine ⟨.error (.unterminated opening (size before)), [], opening :: inner, rfl, ?_,
          fun _ => rfl⟩
        rw [List.append_nil]
        exact block_amid_of_eq_none hinside
    | some inside =>
        obtain ⟨back, rfl⟩ := exists_append_of_blockInside? hinside
        refine ⟨.ok (size before, size before + opening.utf8Size + size inside),
          opening :: (inside ++ [closing]), back, by simp, ?_, False.elim⟩
        rw [block, rest_amid, ok_bind]
        simp only [ne_eq, not_true_eq_false, if_false, hinside, pure_eq_ok]
        simp [amid, Nat.add_assoc]
  · refine ⟨.error (.expected opening (size before)), [], rest, rfl, ?_, fun _ => rfl⟩
    rw [List.append_nil]
    exact block_amid_of_ne hopen closing

end

/-! ## Steps -/

/-- A search has something to look for, and a jump goes between two characters of the text. -/
def CursorStep.IsProper (t : Text) : CursorStep → Prop
  | moveTo offset => IsBoundary t offset
  | passKeyword keyword | passWord keyword | seekWord keyword => keyword ≠ []
  | _ => True

instance (t : Text) : (step : CursorStep) → Decidable (step.IsProper t)
  | .moveTo offset => inferInstanceAs (Decidable (IsBoundary t offset))
  | .passKeyword keyword | .passWord keyword | .seekWord keyword =>
    inferInstanceAs (Decidable (keyword ≠ []))
  | .pos | .peek | .skipBlanks | .accept _ | .name | .upToAny _ | .block _ _ =>
    inferInstanceAs (Decidable True)

/-- The operations that read what stands at the cursor or look for a mark. -/
def CursorStep.IsTrial : CursorStep → Prop
  | accept _ | name | upToAny _ | block _ _ => True
  | _ => False

/-- The operations that look for a word. -/
def CursorStep.IsSearch : CursorStep → Prop
  | passKeyword _ | passWord _ | seekWord _ => True
  | _ => False

/-- A step takes a cursor whose range ends at `stop` from one offset to another. -/
structure TakesTo (stop : Nat) (step : CursorStep) (reply : CursorReply) (pos next : Nat) :
    Prop where
  le : (∀ offset, step ≠ .moveTo offset) → pos ≤ next
  eq_pos : step.IsTrial → reply.IsFailure → next = pos
  eq_stop : step.IsSearch → reply.IsFailure → next = stop

/-- What a step does to a cursor between characters. -/
def KeepsBetween (step : CursorStep) (s : Cursor) : Prop :=
  ∃ reply next, step.perform s = .ok (reply, next) ∧ next.BetweenCharacters ∧
    next.text = s.text ∧ next.stop = s.stop ∧ TakesTo s.stop step reply s.pos next.pos

section

variable {before rest after : Text} {step : CursorStep}

theorem keepsBetween_of_passed (reply : CursorReply) {part left : Text}
    (hrest : rest = part ++ left)
    (hperform : step.perform (amid before rest after) =
      .ok (reply, amid (before ++ part) left after))
    (htrial : step.IsTrial → reply.IsFailure → part = [])
    (hsearch : step.IsSearch → reply.IsFailure → left = []) :
    KeepsBetween step (amid before rest after) := by
  subst hrest
  refine ⟨reply, _, hperform, betweenCharacters_amid _ _ _, by simp, ?_, ?_, ?_, ?_⟩
  · simp [amid, Nat.add_assoc]
  · intro _
    rw [pos_amid, pos_amid, size_append]
    exact Nat.le_add_right _ _
  · intro hkind hfailure
    rw [htrial hkind hfailure, List.append_nil]
    rfl
  · intro hkind hfailure
    rw [hsearch hkind hfailure]
    simp [amid]

section

variable {α : Type} {outcome : Except BadCut (α × Cursor)} {wrap : α → CursorReply}

/-- The answer of an operation that tries something is the answer of the step. -/
theorem Tries.keepsBetween (h : Tries wrap before rest after outcome) (hkind : ¬ step.IsSearch)
    (hperform : step.perform (amid before rest after) =
      outcome >>= fun found => pure (found.map wrap id)) :
    KeepsBetween step (amid before rest after) := by
  obtain ⟨answer, part, left, hrest, houtcome, hfailure⟩ := h
  rw [houtcome] at hperform
  apply keepsBetween_of_passed (wrap answer) hrest hperform
  · exact fun _ => hfailure
  · exact fun hsearch => absurd hsearch hkind

theorem Searches.keepsBetween (h : Searches wrap before rest after outcome)
    (hkind : ¬ step.IsTrial)
    (hperform : step.perform (amid before rest after) =
      outcome >>= fun found => pure (found.map wrap id)) :
    KeepsBetween step (amid before rest after) := by
  obtain ⟨answer, part, left, hrest, houtcome, hfailure⟩ := h
  rw [houtcome] at hperform
  apply keepsBetween_of_passed (wrap answer) hrest hperform
  · exact fun htrial => absurd htrial hkind
  · exact fun _ => hfailure

end

theorem keepsBetween_of_neither (reply : CursorReply) {part left : Text}
    (hrest : rest = part ++ left) (htrial : ¬ step.IsTrial) (hsearch : ¬ step.IsSearch)
    (hperform : step.perform (amid before rest after) =
      .ok (reply, amid (before ++ part) left after)) :
    KeepsBetween step (amid before rest after) := by
  apply keepsBetween_of_passed reply hrest hperform
  · exact fun hkind => absurd hkind htrial
  · exact fun hkind => absurd hkind hsearch

end

theorem keepsBetween_moveTo {s : Cursor} (hs : s.BetweenCharacters) {offset : Nat}
    (h : IsBoundary s.text offset) : KeepsBetween (.moveTo offset) s := by
  have hpos : IsBoundary s.text (min offset s.stop) := by
    rcases Nat.le_total offset s.stop with hle | hle
    · rw [Nat.min_eq_left hle]
      exact h
    · rw [Nat.min_eq_right hle]
      exact hs.stop
  refine ⟨.done, s.moveTo offset, rfl, ⟨hpos, hs.stop, Nat.min_le_right _ _⟩, rfl, rfl, ?_, ?_, ?_⟩
  · exact fun hother => absurd rfl (hother offset)
  · exact fun htrial => htrial.elim
  · exact fun hsearch => hsearch.elim

/-- Every step keeps a cursor between characters. -/
theorem keepsBetween_of_isProper {step : CursorStep} {s : Cursor} (hs : s.BetweenCharacters)
    (hstep : step.IsProper s.text) : KeepsBetween step s := by
  obtain ⟨before, rest, after, rfl⟩ := hs.exists_eq_amid
  cases step with
  | pos =>
      refine keepsBetween_of_neither .done (List.nil_append rest).symm not_false not_false ?_
      rw [List.append_nil]
      rfl
  | moveTo offset => exact keepsBetween_moveTo hs hstep
  | peek =>
      refine keepsBetween_of_neither (.char rest.head?) (List.nil_append rest).symm not_false
        not_false ?_
      rw [CursorStep.perform, peek_amid, List.append_nil]
      rfl
  | skipBlanks =>
      obtain ⟨part, left, hrest, hskip⟩ := passes_skipBlanks before rest after
      refine keepsBetween_of_neither .done hrest not_false not_false ?_
      rw [CursorStep.perform, hskip]
      rfl
  | accept c => exact (tries_accept before rest after c).keepsBetween not_false rfl
  | name => exact (tries_name before rest after).keepsBetween not_false rfl
  | passKeyword keyword =>
      exact (searches_passKeyword before rest after hstep).keepsBetween not_false rfl
  | passWord keyword =>
      exact (searches_passWord before rest after keyword).keepsBetween not_false rfl
  | seekWord keyword =>
      exact (searches_seekWord before rest after keyword).keepsBetween not_false rfl
  | upToAny targets => exact (tries_upToAny before rest after targets).keepsBetween not_false rfl
  | block opening closing =>
      exact (tries_block before rest after opening closing).keepsBetween not_false rfl

/-! ## Runs -/

/-- A run from one offset to another, with the answer of each step and the offset behind it. -/
inductive RunsTo (t : Text) (stop : Nat) :
    Nat → List CursorStep → List (CursorReply × Nat) → Nat → Prop
  | done {pos : Nat} : RunsTo t stop pos [] [] pos
  | step {pos next last : Nat} {step : CursorStep} {reply : CursorReply}
      {later : List CursorStep} {replies : List (CursorReply × Nat)}
      (hstep : TakesTo stop step reply pos next) (hboundary : IsBoundary t next)
      (hstop : next ≤ stop) (hlater : RunsTo t stop next later replies last) :
      RunsTo t stop pos (step :: later) ((reply, next) :: replies) last

/-- A run of proper steps from a range between characters meets no bad cut. Each step of it ends
between characters and within the range, and goes back, stays or goes to the end only as it may. -/
theorem exists_runsTo {t : Text} {start stop : Nat} (hstart : IsBoundary t start)
    (hstop : IsBoundary t stop) (hle : start ≤ stop) {steps : List CursorStep}
    (hsteps : ∀ step ∈ steps, step.IsProper t) :
    ∃ replies last,
      Cursor.performAll ⟨t, start, stop⟩ steps = (replies, some ⟨t, last, stop⟩) ∧
        RunsTo t stop start steps replies last := by
  induction steps generalizing start with
  | nil => exact ⟨[], start, rfl, .done⟩
  | cons step steps ih =>
      obtain ⟨hstep, hlater⟩ := List.forall_mem_cons.mp hsteps
      obtain ⟨reply, ⟨text, next, _⟩, hperform, hnext, rfl, rfl, htakes⟩ :=
        keepsBetween_of_isProper (s := ⟨t, start, stop⟩) ⟨hstart, hstop, hle⟩ hstep
      obtain ⟨replies, last, hreplies, hruns⟩ := ih hnext.pos hnext.pos_le_stop hlater
      refine ⟨(reply, next) :: replies, last, ?_, .step htakes hnext.pos hnext.pos_le_stop hruns⟩
      simp only at hreplies
      rw [Cursor.performAll, hperform]
      simp only [hreplies]

/-- The range lies between characters of two bytes. The trials in it fail and stay, the first search
fails and goes to the end, and the jump goes back. -/
theorem exists_runsTo_of_failures :
    let t : Text := "é(ß \x7b enum ü; x é"
    let steps : List CursorStep := [.accept ';', .name, .upToAny ['}'], .block '(' ')',
      .passKeyword "enum", .moveTo 2, .passWord "enum", .skipBlanks, .name, .accept ';']
    (∀ step ∈ steps, step.IsProper t) ∧ ∃ replies last,
      Cursor.performAll ⟨t, 2, 19⟩ steps = (replies, some ⟨t, last, 19⟩) ∧
        replies.map Prod.snd = [2, 2, 2, 2, 19, 2, 12, 13, 13, 13] ∧
        RunsTo t 19 2 steps replies last := by
  intro t steps
  have hsteps : ∀ step ∈ steps, step.IsProper t := by decide +kernel
  obtain ⟨replies, last, hrun, hruns⟩ := exists_runsTo (by decide : IsBoundary t 2)
    (by decide : IsBoundary t 19) (by decide) hsteps
  have hreplies : (Cursor.performAll ⟨t, 2, 19⟩ steps).1.map Prod.snd =
      [2, 2, 2, 2, 19, 2, 12, 13, 13, 13] := by decide +kernel
  rw [hrun] at hreplies
  exact ⟨hsteps, replies, last, hrun, hreplies, hruns⟩

end HeaderBindings.Header
