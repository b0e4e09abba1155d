import HeaderBindings.Proofs.Header.RoundTrip
import HeaderBindings.Proofs.Header.Spelling

/-! # Two layouts of a header

Reading a header in two layouts keeps step: each search stops before the same mark in both texts,
each round takes the same branch, and what is found differs in its offsets only. -/

namespace HeaderBindings.Header

open List Text Cursor

variable {s s' t t' : Text}

/-! ## Searches -/

/-- Two searches that both fail, or both stop before the mark, behind texts and before texts that
differ in their layout only. -/
inductive StopAlike (mark t t' : Text) : Option Text → Option Text → Prop
  | none : StopAlike mark t t' none none
  | some {part rest part' rest' : Text} (htext : t = part ++ (mark ++ rest))
      (htext' : t' = part' ++ (mark ++ rest')) (hpart : Relaid part part')
      (hrest : Relaid rest rest') : StopAlike mark t t' (some part) (some part')

theorem StopAlike.append {mark : Text} {found found' : Option Text}
    (h : StopAlike mark t t' found found') (hs : Relaid s s') :
    StopAlike mark (s ++ t) (s' ++ t') (found.map (s ++ ·)) (found'.map (s' ++ ·)) := by
  cases h with
  | none => exact .none
  | some htext htext' hpart hrest =>
      refine .some ?_ ?_ (hs.append hpart) hrest
      · rw [htext, List.append_assoc]
      · rw [htext', List.append_assoc]

section Words

variable {keyword : Text} {depthAfter : Nat → Char → Nat} {before? before'? : Option Char}

theorem separatesWords_relaid (h : Relaid t t') :
    separatesWords t.head? = separatesWords t'.head? ∧
      separatesWords t.getLast? = separatesWords t'.getLast? := by
  have hmap : ∀ c? : Option Char, separatesWords c? = (c?.map isNameChar).all (!·) := by
    intro c?
    cases c? <;> rfl
  rw [hmap, hmap, hmap, hmap, h.map_head? ignoresLayout_isNameChar,
    h.map_getLast? ignoresLayout_isNameChar]
  exact ⟨rfl, rfl⟩

theorem exists_afterWord?_relaid (hkeyword : ∀ c ∈ keyword, isNameChar c = true)
    (hbefore : separatesWords before? = separatesWords before'?) (h : Relaid t t') {rest : Text}
    (hword : afterWord? keyword before? t = some rest) :
    ∃ rest', afterWord? keyword before'? t' = some rest' ∧ Relaid rest rest' := by
  obtain ⟨rfl, hstart, hend⟩ := afterWord?_eq_some_iff.mp hword
  obtain ⟨rest', rfl, hrest⟩ :=
    h.exists_of_append fun c hc => isAsciiBlank_of_isNameChar (hkeyword c hc)
  refine ⟨rest', afterWord?_eq_some_iff.mpr ⟨rfl, ?_, ?_⟩, hrest⟩
  · rw [← hbefore, hstart]
  · rw [← (separatesWords_relaid hrest).1, hend]

theorem upToWordAt?_blanks (hne : keyword ≠ []) (hkeyword : ∀ c ∈ keyword, isNameChar c = true)
    (hdepth : ∀ depth c, isAsciiBlank c = true → depthAfter depth c = depth) {gap : Text}
    (hgap : ∀ c ∈ gap, isAsciiBlank c = true) (depth : Nat) (before? : Option Char) (t : Text) :
    upToWordAt? keyword depthAfter depth before? (gap ++ t) =
      (upToWordAt? keyword depthAfter depth (gap.getLast?.or before?) t).map (gap ++ ·) := by
  induction gap generalizing before? with
  | nil => simp
  | cons c gap ih =>
      obtain ⟨hc, hgap⟩ := List.forall_mem_cons.mp hgap
      have hnone : ¬ (depth = 0 ∧ (afterWord? keyword before? (c :: (gap ++ t))).isSome) := by
        rintro ⟨-, hfound⟩
        obtain ⟨rest, hrest⟩ := Option.isSome_iff_exists.mp hfound
        have htext := (afterWord?_eq_some_iff.mp hrest).1
        obtain ⟨k, keyword, rfl⟩ := List.exists_cons_of_ne_nil hne
        obtain ⟨rfl, -⟩ := List.cons.inj htext
        rw [isAsciiBlank_of_isNameChar (hkeyword c List.mem_cons_self)] at hc
        cases hc
      rw [List.cons_append, upToWordAt?, if_neg hnone, hdepth depth c hc, ih hgap,
        getLast?_cons_or, Option.map_map]
      rfl

theorem upToWordAt?_relaid (hne : keyword ≠ []) (hkeyword : ∀ c ∈ keyword, isNameChar c = true)
    (hdepth : ∀ depth c, isAsciiBlank c = true → depthAfter depth c = depth)
    (hbefore : separatesWords before? = separatesWords before'?) (h : Relaid t t') (depth : Nat) :
    StopAlike keyword t t' (upToWordAt? keyword depthAfter depth before? t)
      (upToWordAt? keyword depthAfter depth before'? t') := by
  induction h generalizing depth before? before'? with
  | nil => exact .none
  | @char c t t' h ih =>
      rw [upToWordAt?, upToWordAt?]
      by_cases hfound : depth = 0 ∧ (afterWord? keyword before? (c :: t)).isSome
      · obtain ⟨rest, hword⟩ := Option.isSome_iff_exists.mp hfound.2
        obtain ⟨rest', hword', hrest⟩ :=
          exists_afterWord?_relaid hkeyword hbefore (.char c h) hword
        rw [if_pos hfound, if_pos ⟨hfound.1, by rw [hword']; rfl⟩]
        exact .some (afterWord?_eq_some_iff.mp hword).1 (afterWord?_eq_some_iff.mp hword').1 .nil
          hrest
      · have hfound' : ¬ (depth = 0 ∧ (afterWord? keyword before'? (c :: t')).isSome) := by
          rintro ⟨hzero, hword'⟩
          obtain ⟨rest', hword'⟩ := Option.isSome_iff_exists.mp hword'
          obtain ⟨rest, hword, -⟩ :=
            exists_afterWord?_relaid hkeyword hbefore.symm (Relaid.char c h).symm hword'
          exact hfound ⟨hzero, by rw [hword]; rfl⟩
        rw [if_neg hfound, if_neg hfound']
        exact (ih rfl (depthAfter depth c)).append (.refl [c])
  | @gap gap gap' t t' hgap hgap' h ih =>
      rw [upToWordAt?_blanks hne hkeyword hdepth hgap.isAsciiBlank,
        upToWordAt?_blanks hne hkeyword hdepth hgap'.isAsciiBlank]
      have hlast : ∀ {gap : Text}, IsSpacing gap → ∀ before? : Option Char,
          gap.getLast?.or before? = gap.getLast? := by
        intro gap hgap before?
        rw [List.getLast?_eq_some_getLast hgap.ne_nil]
        rfl
      have hspacing := Relaid.of_isSpacing hgap hgap'
      refine (ih ?_ depth).append hspacing
      rw [hlast hgap, hlast hgap', (separatesWords_relaid hspacing).2]

end Words

theorem blockInside?_spacing {opening closing : Char} (hne : opening ≠ closing)
    (hopening : isAsciiBlank opening = false) (hclosing : isAsciiBlank closing = false) {gap : Text}
    (hgap : IsSpacing gap) (depth : Nat) (t : Text) :
    blockInside? opening closing depth (gap ++ t) =
      (blockInside? opening closing depth t).map (gap ++ ·) := by
  have hnot : ∀ mark, isAsciiBlank mark = false → mark ∉ gap := by
    intro mark hmark hmem
    rw [hgap.isAsciiBlank mark hmem] at hmark
    cases hmark
  have hcount : ∀ start, start <+: gap → start.count closing ≤ depth + start.count opening := by
    intro start hstart
    rw [List.count_eq_zero.mpr fun hmem => hnot closing hclosing (hstart.subset hmem)]
    exact Nat.zero_le _
  rw [blockInside?_append hne hcount, List.count_eq_zero.mpr (hnot opening hopening),
    List.count_eq_zero.mpr (hnot closing hclosing)]
  rfl

theorem blockInside?_relaid {opening closing : Char} (hne : opening ≠ closing)
    (hopening : isAsciiBlank opening = false) (hclosing : isAsciiBlank closing = false)
    (h : Relaid t t') (depth : Nat) :
    StopAlike [closing] t t' (blockInside? opening closing depth t)
      (blockInside? opening closing depth t') := by
  induction h generalizing depth with
  | nil => exact .none
  | @char c t t' h ih =>
      by_cases hc : c = opening
      · subst hc
        rw [blockInside?_opening, blockInside?_opening]
        exact (ih (depth + 1)).append (.refl [c])
      by_cases hc : c = closing
      · subst hc
        cases depth with
        | zero =>
            rw [blockInside?_closing_zero hne, blockInside?_closing_zero hne]
            exact .some rfl rfl .nil h
        | succ depth =>
            rw [blockInside?_closing hne, blockInside?_closing hne]
            exact (ih depth).append (.refl [c])
      · rw [blockInside?_of_ne ‹_› hc, blockInside?_of_ne ‹_› hc]
        exact (ih depth).append (.refl [c])
  | gap hgap hgap' h ih =>
      rw [blockInside?_spacing hne hopening hclosing hgap,
        blockInside?_spacing hne hopening hclosing hgap']
      exact (ih depth).append (.of_isSpacing hgap hgap')

/-- A block is passed as a whole in both layouts, or both cursors stay. -/
theorem block_relaid {opening closing : Char} (hne : opening ≠ closing)
    (hopening : isAsciiBlank opening = false) (hclosing : isAsciiBlank closing = false)
    (h : Relaid t t') (before before' after after' : Text) :
    (amid before (opening :: t) after).block opening closing =
          .ok (.error (.unterminated opening (size before)), amid before (opening :: t) after) ∧
        (amid before' (opening :: t') after').block opening closing =
          .ok (.error (.unterminated opening (size before')),
            amid before' (opening :: t') after') ∨
      ∃ inside left inside' left', t = inside ++ closing :: left ∧
        t' = inside' ++ closing :: left' ∧ Relaid inside inside' ∧ Relaid left left' ∧
        (amid before (opening :: t) after).block opening closing =
          .ok (.ok (size before, size before + opening.utf8Size + size inside),
            amid (before ++ opening :: (inside ++ [closing])) left after) ∧
        (amid before' (opening :: t') after').block opening closing =
          .ok (.ok (size before', size before' + opening.utf8Size + size inside'),
            amid (before' ++ opening :: (inside' ++ [closing])) left' after') := by
  have hsearches := blockInside?_relaid hne hopening hclosing h 0
  generalize hfound : blockInside? opening closing 0 t = found,
    hfound' : blockInside? opening closing 0 t' = found' at hsearches
  cases hsearches with
  | none => exact .inl ⟨block_amid_of_eq_none hfound, block_amid_of_eq_none hfound'⟩
  | @some inside left inside' left' htext htext' hinside hleft =>
      subst htext htext'
      exact .inr ⟨inside, left, inside', left', rfl, rfl, hinside, hleft,
        block_amid hne (balanced_of_blockInside? hne hfound).2,
        block_amid hne (balanced_of_blockInside? hne hfound').2⟩

/-- Both layouts have the same first target, unless neither has any. -/
theorem upToTarget?_relaid {targets : List Char} (hbrace : '{' ∈ targets) (hparen : '(' ∈ targets)
    (htargets : ∀ c ∈ targets, isAsciiBlank c = false) (h : Relaid t t') :
    upToTarget? targets 0 t = none ∧ upToTarget? targets 0 t' = none ∨
      ∃ part part' rest rest' c, t = part ++ c :: rest ∧ t' = part' ++ c :: rest' ∧
        Relaid part part' ∧ Relaid rest rest' ∧
        upToTarget? targets 0 t = some (part, c) ∧ upToTarget? targets 0 t' = some (part', c) := by
  have hignores : IgnoresLayout (!targets.contains ·) := by
    refine ignoresLayout_of_forall (a := true) fun c hc => ?_
    have hmem : c ∉ targets := by
      intro hmem
      rw [htargets c hmem] at hc
      cases hc
    simpa using hmem
  obtain ⟨hpart, hrest⟩ := h.span hignores
  rw [upToTarget?_eq_map_head? hbrace hparen, upToTarget?_eq_map_head? hbrace hparen]
  cases hdrop : t.dropWhile (!targets.contains ·) with
  | nil =>
      rw [hdrop] at hrest
      rw [hrest.eq_nil_iff.mp rfl]
      exact .inl ⟨rfl, rfl⟩
  | cons c rest =>
      have hc : c ∈ targets := by
        have hhead : c ∈ (t.dropWhile (!targets.contains ·)).head? := by rw [hdrop]; rfl
        simpa using eq_false_of_mem_head?_dropWhile hhead
      rw [hdrop] at hrest
      obtain ⟨rest', hdrop', hrest⟩ := hrest.exists_of_cons (htargets c hc)
      refine .inr ⟨_, _, rest, rest', c, ?_, ?_, hpart, hrest, rfl, by rw [hdrop']; rfl⟩
      · rw [← hdrop, List.takeWhile_append_dropWhile]
      · rw [← hdrop', List.takeWhile_append_dropWhile]

end HeaderBindings.Header
