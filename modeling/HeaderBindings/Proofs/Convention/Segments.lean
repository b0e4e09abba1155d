import HeaderBindings.Convention
import HeaderBindings.Proofs.Text

/-! # Bare names, segment by segment

A name is cut at its underscores. The loop that forms the bare name leaves out the segments that
repeat the type, except the last, and it ends after at most one round for each character and one
more. -/

namespace HeaderBindings.Convention

open List Text

/-! ## Segments -/

/-- The pieces of a name between its underscores. -/
def segments (t : Text) : List Text := pieces (· == '_') t

/-- A name without the segments that are the given one. The last segment stays in any case. -/
def withoutSegments (segment t : Text) : Text :=
  ['_'].intercalate
    ((segments t).dropLast.filter (· ≠ segment) ++ (segments t).getLast?.toList)

theorem segments_of_not_mem {t : Text} (h : '_' ∉ t) : segments t = [t] := by
  apply pieces_eq_singleton
  intro c hc
  exact beq_eq_false_iff_ne.mpr (ne_of_mem_of_not_mem hc h)

theorem segments_append_underscore {first : Text} (h : '_' ∉ first) (t : Text) :
    segments (first ++ '_' :: t) = first :: segments t := by
  have hcut : segments (first ++ '_' :: t) = segments first ++ segments t :=
    pieces_append_cons rfl first t
  rw [hcut, segments_of_not_mem h]
  rfl

theorem withoutSegments_of_not_mem (segment : Text) {t : Text} (h : '_' ∉ t) :
    withoutSegments segment t = t := by
  simp [withoutSegments, segments_of_not_mem h]

theorem withoutSegments_append_underscore (segment : Text) {first : Text} (h : '_' ∉ first)
    (t : Text) :
    withoutSegments segment (first ++ '_' :: t) =
      if first = segment then withoutSegments segment t
      else first ++ '_' :: withoutSegments segment t := by
  obtain ⟨second, others, ht⟩ := List.exists_cons_of_ne_nil (pieces_ne_nil (· == '_') t)
  have ht : segments t = second :: others := ht
  unfold withoutSegments
  rw [segments_append_underscore h, ht, List.dropLast_cons_cons, List.getLast?_cons_cons,
    List.filter_cons]
  by_cases hfirst : first = segment
  · simp [hfirst]
  · have hne : (second :: others).dropLast.filter (· ≠ segment) ++
        (second :: others).getLast?.toList ≠ [] := by
      simp [List.getLast?_cons]
    obtain ⟨third, rest, hrest⟩ := List.exists_cons_of_ne_nil hne
    rw [if_pos (by simpa using hfirst), if_neg hfirst, List.cons_append, hrest,
      List.intercalate_cons_cons, List.append_assoc]
    rfl

/-! ## What one round drops -/

theorem forall_bne_of_not_mem {t : Text} (h : '_' ∉ t) : ∀ c ∈ t, (c != '_') = true :=
  fun _ hc => bne_iff_ne.mpr (ne_of_mem_of_not_mem hc h)

theorem dropSegments_of_not_mem (type : Text) {t : Text} (h : '_' ∉ t) :
    dropSegments type t = t := by
  have hstart : afterStart? (type ++ "_") t = none := by
    apply Option.eq_none_iff_forall_not_mem.mpr
    intro rest hrest
    apply h
    rw [eq_append_of_afterStart? hrest]
    exact List.mem_append_left rest (List.mem_append_right type List.mem_cons_self)
  have hnone := List.dropWhile_eq_nil_iff.mpr (forall_bne_of_not_mem h)
  rw [dropSegments.eq_def]
  split
  next rest hrest => cases hstart.symm.trans hrest
  next =>
    split
    next => rfl
    next c rest hrest => cases hnone.symm.trans hrest

theorem dropSegments_type_append (type rest : Text) :
    dropSegments type (type ++ '_' :: rest) = dropSegments type rest := by
  have hstart : afterStart? (type ++ "_") (type ++ '_' :: rest) = some rest := by
    rw [List.append_cons]
    exact afterStart?_append (type ++ ['_']) rest
  rw [dropSegments.eq_def]
  split
  next rest' hrest =>
    cases hstart.symm.trans hrest
    rfl
  next hnone => cases hstart.symm.trans hnone

theorem dropSegments_append_underscore {type first rest : Text} (hfirst : '_' ∉ first)
    (hstart : ¬ type ++ ['_'] <+: first ++ '_' :: rest) :
    dropSegments type (first ++ '_' :: rest) = first ++ '_' :: dropSegments type rest := by
  have hrun := forall_bne_of_not_mem hfirst
  have hend : ∀ c ∈ ('_' :: rest).head?, (c != '_') = false := by simp
  have hdrop := dropWhile_append_of_head? hrun hend
  rw [dropSegments.eq_def]
  split
  next rest' hrest => exact absurd ⟨rest', (eq_append_of_afterStart? hrest).symm⟩ hstart
  next =>
    split
    next hnil => cases hdrop.symm.trans hnil
    next c rest' hrest =>
      cases hdrop.symm.trans hrest
      rw [takeWhile_append_of_head? hrun hend]

/-! ## The loop -/

/-- The rounds over a name: `kept` is what was copied before. A round passes over the type with an
underscore behind it, or else it copies a segment with its underscore; the last one copies what is
left. -/
inductive SegmentRun (type : Text) : (kept t result : Text) → (rounds : ℕ) → Prop
  | last {kept t : Text} (ht : '_' ∉ t) : SegmentRun type kept t (kept ++ t) 1
  | skip {kept t result : Text} {rounds : ℕ} (h : SegmentRun type kept t result rounds) :
      SegmentRun type kept (type ++ '_' :: t) result (rounds + 1)
  | copy {kept first t result : Text} {rounds : ℕ} (hfirst : '_' ∉ first)
      (hstart : ¬ type ++ ['_'] <+: first ++ '_' :: t)
      (h : SegmentRun type (kept ++ first ++ ['_']) t result rounds) :
      SegmentRun type kept (first ++ '_' :: t) result (rounds + 1)

theorem segment_cases (type t : Text) :
    '_' ∉ t ∨ (∃ rest, t = type ++ '_' :: rest) ∨
      ∃ first rest, t = first ++ '_' :: rest ∧ '_' ∉ first ∧
        ¬ type ++ ['_'] <+: first ++ '_' :: rest := by
  by_cases hmem : '_' ∈ t
  · right
    by_cases hstart : type ++ ['_'] <+: t
    · obtain ⟨rest, rfl⟩ := hstart
      exact .inl ⟨rest, (List.append_cons type '_' rest).symm⟩
    · obtain ⟨first, rest, rfl, hfirst⟩ := List.eq_append_cons_of_mem hmem
      exact .inr ⟨first, rest, rfl, hfirst, hstart⟩
  · exact .inl hmem

/-- The loop ends: each round but the last leaves a shorter name. -/
theorem exists_segmentRun (type kept t : Text) :
    ∃ result rounds, rounds ≤ t.length + 1 ∧ SegmentRun type kept t result rounds := by
  induction hlength : t.length using Nat.strong_induction_on generalizing kept t with
  | h n ih =>
      subst hlength
      rcases segment_cases type t with hlast | ⟨rest, rfl⟩ | ⟨first, rest, rfl, hfirst, hstart⟩
      · exact ⟨_, 1, by omega, .last hlast⟩
      · have hshorter : rest.length < (type ++ '_' :: rest).length := by simp; omega
        obtain ⟨result, rounds, hrounds, hrun⟩ := ih _ hshorter kept rest rfl
        exact ⟨result, rounds + 1, by omega, .skip hrun⟩
      · have hshorter : rest.length < (first ++ '_' :: rest).length := by simp; omega
        obtain ⟨result, rounds, hrounds, hrun⟩ :=
          ih _ hshorter (kept ++ first ++ ['_']) rest rfl
        exact ⟨result, rounds + 1, by omega, .copy hfirst hstart hrun⟩

namespace SegmentRun

variable {type kept t result : Text} {rounds : ℕ}

theorem eq_append_dropSegments (h : SegmentRun type kept t result rounds) :
    result = kept ++ dropSegments type t := by
  induction h with
  | last ht => rw [dropSegments_of_not_mem type ht]
  | skip _ ih => rw [dropSegments_type_append, ih]
  | copy hfirst hstart _ ih =>
      rw [dropSegments_append_underscore hfirst hstart, ih]
      simp only [List.append_assoc, List.singleton_append]

/-- A round passes over the type only where it is a segment of its own, unless the type holds an
underscore. -/
theorem eq_append_withoutSegments (h : SegmentRun type kept t result rounds)
    (htype : '_' ∉ type) : result = kept ++ withoutSegments type t := by
  induction h with
  | last ht => rw [withoutSegments_of_not_mem type ht]
  | skip _ ih => rw [withoutSegments_append_underscore type htype, if_pos rfl, ih]
  | @copy _ first t _ _ hfirst hstart _ ih =>
      have hne : first ≠ type := by
        rintro rfl
        exact hstart ⟨t, (List.append_cons first '_' t).symm⟩
      rw [withoutSegments_append_underscore type hfirst, if_neg hne, ih]
      simp only [List.append_assoc, List.singleton_append]

end SegmentRun

/-! ## Bare names -/

/-- The loop over a lower-case name ends within one round for each character and one more, and it
has one result only. The bare name is this result, or the whole name if the result has nothing but
underscores. For a type without underscores the result is the name without the segments that are
the type. -/
theorem exists_segmentRun_bareName (function type : Text) :
    let lower := dropStart "_" (lowercase function)
    ∃ short rounds, rounds ≤ lower.length + 1 ∧
      SegmentRun (lowercase type) [] lower short rounds ∧
      (∀ other rounds, SegmentRun (lowercase type) [] lower other rounds → other = short) ∧
      bareName function type = (if short.all (· == '_') then lower else short) ∧
      ('_' ∉ lowercase type → short = withoutSegments (lowercase type) lower) := by
  intro lower
  obtain ⟨short, rounds, hrounds, hrun⟩ := exists_segmentRun (lowercase type) [] lower
  have hshort : short = dropSegments (lowercase type) lower := hrun.eq_append_dropSegments
  refine ⟨short, rounds, hrounds, hrun, ?_, ?_, ?_⟩
  · intro other rounds hother
    rw [hshort]
    exact hother.eq_append_dropSegments
  · rw [hshort]
    rfl
  · exact hrun.eq_append_withoutSegments

/-- Repetitions of the type go, also adjacent ones; the empty segment and the last one stay. -/
theorem exists_segmentRun_bareName_repeated :
    let lower := dropStart "_" (lowercase "_SET_PED_PED__X_PED")
    '_' ∉ lowercase "Ped" ∧ withoutSegments (lowercase "Ped") lower = "set__x_ped" ∧
      ∃ short rounds, rounds ≤ lower.length + 1 ∧
        SegmentRun (lowercase "Ped") [] lower short rounds ∧
        (∀ other rounds, SegmentRun (lowercase "Ped") [] lower other rounds → other = short) ∧
        bareName "_SET_PED_PED__X_PED" "Ped" =
          (if short.all (· == '_') then lower else short) ∧
        ('_' ∉ lowercase "Ped" → short = withoutSegments (lowercase "Ped") lower) :=
  ⟨by decide +kernel, by decide +kernel, exists_segmentRun_bareName _ _⟩

end HeaderBindings.Convention
