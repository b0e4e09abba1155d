import HeaderBindings.Proofs.Header.Findings
import HeaderBindings.Proofs.Header.Entries
import HeaderBindings.Proofs.Header.Moves

/-! # Sequences of declarations

What is written one behind the other, with any white space between, is read by a run if a round
reads each piece in one go. A run that recovers before such a sequence reads all of it. -/

namespace HeaderBindings.Header

open List Text Cursor

/-! ## Layout -/

/-- White space, which may be absent. -/
abbrev Blanks : Type := { t : Text // ∀ c ∈ t, isBlank c = true }

namespace Blanks

def none : Blanks := ⟨[], forall_isBlank_nil⟩

def single : Blanks := ⟨[' '], forall_isBlank_singleton⟩

variable (gap : Blanks)

theorem isGap : IsGap gap.val := .of_isBlank gap.property

theorem isNameChar : ∀ c ∈ gap.val, Text.isNameChar c = false := fun c hc => (gap.isGap c hc).1

theorem separatesWords_getLast? : separatesWords gap.val.getLast? = true := by
  cases hlast : gap.val.getLast? with
  | none => rfl
  | some c => exact separatesWords_some (gap.isNameChar c (List.mem_of_getLast? hlast))

theorem balanced {opening closing : Char} (hopening : isBlank opening = false)
    (hclosing : isBlank closing = false) : Balanced opening closing gap.val :=
  balanced_of_forall_ne fun c hc =>
    ⟨ne_of_isBlank (gap.property c hc) hopening, ne_of_isBlank (gap.property c hc) hclosing⟩

end Blanks

/-- Things written one behind the other, each behind white space. -/
def laidOut {γ : Type} (text : γ → Text) (pieces : List (Blanks × γ)) : Text :=
  pieces.flatMap fun piece => piece.1.val ++ text piece.2

theorem balanced_laidOut {γ : Type} {text : γ → Text} {opening closing : Char}
    (hopening : isBlank opening = false) (hclosing : isBlank closing = false)
    {pieces : List (Blanks × γ)} (h : ∀ piece ∈ pieces, Balanced opening closing (text piece.2)) :
    Balanced opening closing (laidOut text pieces) :=
  Balanced.flatMap fun piece hpiece => (piece.1.balanced hopening hclosing).append (h piece hpiece)

/-- Things that start with a keyword and that a round reads one at a time, whatever stands around
them. -/
structure IsReadBy {α β γ : Type} (keyword : Text) (round : Cursor → Except BadCut (Round α))
    (erase : α → β) (text : γ → Text) (declared : γ → List β) : Prop where
  isName : IsName keyword
  starts : ∀ g, ∃ c behind, text g = keyword ++ c :: behind ∧ isNameChar c = false
  ends : ∀ g, separatesWords (text g).getLast? = true
  reads : ∀ g (gap : Blanks) (before rest after : Text), separatesWords before.getLast? = true →
    ∃ batch, round (amid before (gap.val ++ (text g ++ rest)) after) =
        .ok (.found batch (amid (before ++ (gap.val ++ text g)) rest after)) ∧
      batch.items.map erase = declared g ∧ batch.problems = []
  finishes : ∀ (gap : Blanks) (before after : Text),
    round (amid before gap.val after) = .ok .finished

namespace IsReadBy

variable {α β γ : Type} {keyword : Text} {round : Cursor → Except BadCut (Round α)}
  {erase : α → β} {text : γ → Text} {declared : γ → List β} {before rest after : Text}

theorem text_ne_nil (h : IsReadBy keyword round erase text declared) (g : γ) : text g ≠ [] := by
  obtain ⟨c, behind, htext, -⟩ := h.starts g
  rw [htext]
  exact List.append_ne_nil_of_left_ne_nil h.isName.ne_nil _

theorem separatesWords_laidOut (h : IsReadBy keyword round erase text declared)
    (hbefore : separatesWords before.getLast? = true) (pieces : List (Blanks × γ)) :
    separatesWords (before ++ laidOut text pieces).getLast? = true := by
  refine separatesWords_getLast?_append hbefore ?_
  induction pieces with
  | nil => rfl
  | cons piece pieces ih =>
      refine separatesWords_getLast?_append ?_ ih
      exact separatesWords_getLast?_append piece.1.separatesWords_getLast? (h.ends piece.2)

/-- A run reads the things that are written at the cursor, and goes on behind them. -/
theorem exists_collect (h : IsReadBy keyword round erase text declared)
    (pieces : List (Blanks × γ)) (hbefore : separatesWords before.getLast? = true)
    {later : Findings α}
    (hlater : collect round (amid (before ++ laidOut text pieces) rest after) = .ok later) :
    ∃ found, collect round (amid before (laidOut text pieces ++ rest) after) = .ok found ∧
      found.items.map erase =
        (pieces.flatMap fun piece => declared piece.2) ++ later.items.map erase ∧
      found.problems = later.problems := by
  induction pieces generalizing before with
  | nil => exact ⟨later, by simpa [laidOut] using hlater, rfl, rfl⟩
  | cons piece pieces ih =>
      obtain ⟨gap, g⟩ := piece
      have hpassed : before ++ laidOut text ((gap, g) :: pieces) =
          before ++ (gap.val ++ text g) ++ laidOut text pieces := by
        simp [laidOut]
      have htext : laidOut text ((gap, g) :: pieces) ++ rest =
          gap.val ++ (text g ++ (laidOut text pieces ++ rest)) := by
        simp [laidOut]
      have hend : separatesWords (before ++ (gap.val ++ text g)).getLast? = true := by
        refine separatesWords_getLast?_append hbefore ?_
        exact separatesWords_getLast?_append gap.separatesWords_getLast? (h.ends g)
      obtain ⟨batch, hround, hitems, hproblems⟩ :=
        h.reads g gap before (laidOut text pieces ++ rest) after hbefore
      rw [hpassed] at hlater
      obtain ⟨tail, htail, htailItems, htailProblems⟩ := ih hend hlater
      have hforward : (amid (before ++ (gap.val ++ text g)) (laidOut text pieces ++ rest)
            after).remaining <
          (amid before (gap.val ++ (text g ++ (laidOut text pieces ++ rest))) after).remaining :=
        remaining_amid_lt (by simp) (by simp [h.text_ne_nil g])
      rw [htext]
      refine ⟨batch ++ tail, collect_of_found hround hforward htail, ?_, ?_⟩
      · rw [Findings.items_append, List.map_append, hitems, htailItems, List.flatMap_cons,
          List.append_assoc]
      · rw [Findings.problems_append, hproblems, htailProblems, List.nil_append]

theorem exists_collect_laidOut (h : IsReadBy keyword round erase text declared)
    (pieces : List (Blanks × γ)) (last : Blanks) (after : Text)
    (hbefore : separatesWords before.getLast? = true) :
    ∃ found, collect round (amid before (laidOut text pieces ++ last.val) after) = .ok found ∧
      found.items.map erase = (pieces.flatMap fun piece => declared piece.2) ∧
      found.problems = [] := by
  obtain ⟨found, hfound, hitems, hproblems⟩ := h.exists_collect pieces hbefore
    (collect_of_finished (h.finishes last (before ++ laidOut text pieces) after))
  refine ⟨found, hfound, ?_, hproblems⟩
  rw [hitems]
  exact List.append_nil _

/-- A run that reports a problem behind such things, and goes on before others of them, reads all
of them. -/
theorem exists_collect_around (h : IsReadBy keyword round erase text declared)
    (first later : List (Blanks × γ)) (hbefore : separatesWords before.getLast? = true)
    {problem : Problem} {next : Cursor} {tail : Findings α}
    (hround : round (amid (before ++ laidOut text first) rest after) =
      .ok (.found (.problem problem) next))
    (hforward : next.remaining < (amid (before ++ laidOut text first) rest after).remaining)
    (htail : collect round next = .ok tail)
    (hitems : tail.items.map erase = later.flatMap fun piece => declared piece.2)
    (hproblems : tail.problems = []) :
    ∃ found, collect round (amid before (laidOut text first ++ rest) after) = .ok found ∧
      found.items.map erase = ((first ++ later).flatMap fun piece => declared piece.2) ∧
      found.problems = [problem] := by
  obtain ⟨found, hfound, hfoundItems, hfoundProblems⟩ :=
    h.exists_collect first hbefore (collect_of_found hround hforward htail)
  refine ⟨found, hfound, ?_, ?_⟩
  · rw [hfoundItems, Findings.items_append, List.map_append, hitems, List.flatMap_append]
    rfl
  · rw [hfoundProblems, Findings.problems_append, hproblems]
    rfl

/-- Behind a mark and text without the keyword, recovery gets to the first of such things, and a
run from there reads all of them. -/
theorem exists_recover (h : IsReadBy keyword round erase text declared) {c : Char}
    (hc : c.utf8Size = 1) (hmark : isNameChar c = false) {filler : Text}
    (hfiller : ¬ HoldsWord keyword (some c) filler)
    (hend : separatesWords filler.getLast? = true) (pieces : List (Blanks × γ)) (last : Blanks)
    (before after : Text) :
    ∃ next found,
      recover keyword (size before)
          (amid before (c :: (filler ++ (laidOut text pieces ++ last.val))) after) = .ok next ∧
      collect round next = .ok found ∧
      found.items.map erase = (pieces.flatMap fun piece => declared piece.2) ∧
      found.problems = [] := by
  have hne := h.isName.ne_nil
  have hkeyword := h.isName.isNameChar
  have hbehind : ∀ gap : Blanks, ¬ HoldsWord keyword (some c) (filler ++ gap.val) :=
    fun gap => not_holdsWord_append hne hkeyword hfiller gap.isNameChar
  cases pieces with
  | nil =>
      have hnone : upToWordAt? keyword sameDepth 0 (some c) (filler ++ last.val) = none :=
        (upToWordAt?_eq_none_iff hne).mpr (hbehind last)
      refine ⟨_, {}, recover_amid_of_eq_none hc hne hkeyword hnone, ?_, rfl, rfl⟩
      exact collect_of_finished (h.finishes .none (before ++ c :: (filler ++ last.val)) after)
  | cons piece pieces =>
      obtain ⟨gap, g⟩ := piece
      obtain ⟨d, behind, htext, hd⟩ := h.starts g
      have hlast : separatesWords (filler ++ gap.val).getLast? = true :=
        separatesWords_getLast?_append hend gap.separatesWords_getLast?
      have hpassed : separatesWords (before ++ c :: (filler ++ gap.val)).getLast? = true := by
        rw [List.append_cons]
        refine separatesWords_getLast?_append ?_ hlast
        rw [List.getLast?_concat]
        exact separatesWords_some hmark
      have hhead : separatesWords
          (d :: (behind ++ (laidOut text pieces ++ last.val))).head? = true :=
        separatesWords_some hd
      have hfound := upToWordAt?_eq_some hne hkeyword (fun e _ => (rfl : sameDepth 0 e = 0))
        (hbehind gap) (separatesWords_or hlast (separatesWords_some hmark)) hhead
      have hrest : filler ++ (laidOut text ((gap, g) :: pieces) ++ last.val) =
          filler ++ gap.val ++
            (keyword ++ d :: (behind ++ (laidOut text pieces ++ last.val))) := by
        simp [laidOut, htext]
      have hleft : keyword ++ d :: (behind ++ (laidOut text pieces ++ last.val)) =
          laidOut text ((.none, g) :: pieces) ++ last.val := by
        simp [laidOut, htext, Blanks.none]
      obtain ⟨found, hcollect, hitems, hproblems⟩ :=
        h.exists_collect_laidOut ((.none, g) :: pieces) last after hpassed
      rw [hrest]
      refine ⟨_, found, recover_amid_of_eq_some hc hne hkeyword hfound, ?_, hitems, hproblems⟩
      rw [hleft]
      exact hcollect

end IsReadBy

end HeaderBindings.Header
