import HeaderBindings.Proofs.Text
import HeaderBindings.Text.Lowercase

/-! # Lower case around underscores

Lower case gives underscores for underscores only, and it does not look past them: what stands on
one side of an underscore does not change the small letters on the other side. A text can be cut
at its underscores before it is put in lower case or afterwards. -/

namespace HeaderBindings.Text

open List

/-! ## Small letters of one character -/

theorem ofNat_ne_underscore {n : ℕ} (h : 95 < n) : Char.ofNat n ≠ '_' := by
  rw [Char.ofNat]
  by_cases hvalid : n.isValidChar
  · rw [dif_pos hvalid]
    intro heq
    have hnat : n = 95 := congrArg Char.toNat heq
    omega
  · rw [dif_neg hvalid]
    decide

theorem toLower_ne_underscore {c : Char} (hascii : c.toNat < 128) (h : c ≠ '_') :
    c.toLower ≠ '_' := by
  have hall : ∀ n < 128, Char.ofNat n ≠ '_' → (Char.ofNat n).toLower ≠ '_' := by decide +kernel
  exact forall_ascii (fun c => c ≠ '_' → c.toLower ≠ '_') hall hascii h

theorem smallLetters_ne_nil (c : Char) : smallLetters c ≠ [] := by
  unfold smallLetters
  repeat' split
  all_goals exact List.cons_ne_nil _ _

theorem underscore_not_mem_smallLetters {c : Char} (h : c ≠ '_') : '_' ∉ smallLetters c := by
  unfold smallLetters
  split
  next hascii => simpa using (toLower_ne_underscore hascii h).symm
  next =>
    split
    next => decide
    next =>
      split
      next n hn =>
        obtain ⟨run, hrun, hsmall⟩ := List.exists_of_findSome?_eq_some hn
        have htargets : ∀ run ∈ Table.caseRuns, 95 < run.target := by decide +kernel
        rw [Table.CaseRun.small?] at hsmall
        split at hsmall
        · have htarget := htargets run hrun
          have hlt : 95 < n := by
            have := Option.some.inj hsmall
            omega
          simpa using (ofNat_ne_underscore hlt).symm
        · cases hsmall
      next => simpa using h.symm

/-! ## One side of an underscore -/

theorem nextHasCase_append_underscore (s t : Text) :
    nextHasCase (s ++ '_' :: t) = nextHasCase s := by
  induction s with
  | nil =>
      have hstays : Table.covers Table.caseIgnorableRanges '_' = false := by decide +kernel
      have hnone : Table.covers Table.casedRanges '_' = false := by decide +kernel
      simp [nextHasCase, hstays, hnone]
  | cons c s ih =>
      by_cases hc : Table.covers Table.caseIgnorableRanges c = true
      · simpa [nextHasCase, hc] using ih
      · simp [nextHasCase, hc]

theorem lowercaseAfter_append_underscore (s before t : Text) :
    lowercaseAfter (s ++ '_' :: before) t = lowercaseAfter s t := by
  induction t generalizing s with
  | nil => rfl
  | cons c t ih =>
      rw [lowercaseAfter, lowercaseAfter, nextHasCase_append_underscore, ← List.cons_append, ih]

theorem lowercaseAfter_of_append_underscore (before s t : Text) :
    lowercaseAfter before (s ++ '_' :: t) =
      lowercaseAfter before s ++ '_' :: lowercase t := by
  induction s generalizing before with
  | nil =>
      rw [lowercase, ← lowercaseAfter_append_underscore [] before t]
      rfl
  | cons c s ih =>
      rw [List.cons_append, lowercaseAfter, lowercaseAfter, nextHasCase_append_underscore, ih,
        List.append_assoc]

/-- The small letters on both sides of an underscore are those of each side alone. -/
theorem lowercase_append_underscore (s t : Text) :
    lowercase (s ++ '_' :: t) = lowercase s ++ '_' :: lowercase t :=
  lowercaseAfter_of_append_underscore [] s t

theorem lowercaseAfter_cons_underscore (before t : Text) :
    lowercaseAfter before ('_' :: t) = '_' :: lowercase t :=
  lowercaseAfter_of_append_underscore before [] t

/-! ## Underscores of a text in lower case -/

/-- The first letters of a text in lower case come from its first character. -/
theorem exists_lowercaseAfter_cons (before : Text) {c : Char} (h : c ≠ '_') (t : Text) :
    ∃ small, lowercaseAfter before (c :: t) = small ++ lowercaseAfter (c :: before) t ∧
      small ≠ [] ∧ '_' ∉ small := by
  refine ⟨_, rfl, ?_⟩
  split
  · split <;> decide
  · exact ⟨smallLetters_ne_nil c, underscore_not_mem_smallLetters h⟩

theorem exists_of_lowercaseAfter_eq {before t front back : Text}
    (h : lowercaseAfter before t = front ++ '_' :: back) :
    ∃ s u, t = s ++ '_' :: u ∧ lowercase u = back := by
  induction t generalizing before front with
  | nil => simp [lowercaseAfter] at h
  | cons c t ih =>
      by_cases hc : c = '_'
      · subst hc
        rw [lowercaseAfter_cons_underscore] at h
        cases front with
        | nil => exact ⟨[], t, rfl, (List.cons.inj h).2⟩
        | cons d front =>
            obtain ⟨s, u, rfl, hu⟩ := ih (List.cons.inj h).2
            exact ⟨'_' :: s, u, rfl, hu⟩
      · obtain ⟨small, hsmall, -, hmem⟩ := exists_lowercaseAfter_cons before hc t
        rw [hsmall] at h
        obtain ⟨behind, -, hbehind⟩ := exists_append_of_not_mem hmem h
        obtain ⟨s, u, rfl, hu⟩ := ih hbehind
        exact ⟨c :: s, u, rfl, hu⟩

/-- A text whose lower case is cut at an underscore is itself cut there. -/
theorem exists_of_lowercase_eq_append {t front back : Text}
    (h : lowercase t = front ++ '_' :: back) :
    ∃ s u, t = s ++ '_' :: u ∧ lowercase s = front ∧ lowercase u = back := by
  obtain ⟨s, u, rfl, rfl⟩ := exists_of_lowercaseAfter_eq h
  rw [lowercase_append_underscore] at h
  exact ⟨s, u, rfl, List.append_cancel_right h, rfl⟩

theorem dropWhile_lowercase (t : Text) :
    (lowercase t).dropWhile (· == '_') = lowercase (t.dropWhile (· == '_')) := by
  induction t with
  | nil => rfl
  | cons c t ih =>
      by_cases hc : c = '_'
      · subst hc
        rw [lowercase, lowercaseAfter_cons_underscore]
        exact ih
      · obtain ⟨small, hsmall, hne, hmem⟩ := exists_lowercaseAfter_cons [] hc t
        obtain ⟨d, small, rfl⟩ := List.exists_cons_of_ne_nil hne
        have hd : d ≠ '_' := fun heq => hmem (heq ▸ List.mem_cons_self)
        rw [List.dropWhile_cons_of_neg (by simpa using hc), lowercase, hsmall]
        exact List.dropWhile_cons_of_neg (by simpa using hd)

theorem lowercase_eq_nil_iff {t : Text} : lowercase t = [] ↔ t = [] := by
  cases t with
  | nil => exact iff_of_true rfl rfl
  | cons c t =>
      refine iff_of_false ?_ (List.cons_ne_nil c t)
      by_cases hc : c = '_'
      · subst hc
        rw [lowercase, lowercaseAfter_cons_underscore]
        exact List.cons_ne_nil _ _
      · obtain ⟨small, hsmall, hne, -⟩ := exists_lowercaseAfter_cons [] hc t
        rw [lowercase, hsmall]
        exact List.append_ne_nil_of_left_ne_nil hne _

end HeaderBindings.Text
