import HeaderBindings.Proofs.Convention.Kinds
import HeaderBindings.Proofs.Convention.Segments
import HeaderBindings.Proofs.Lowercase

/-! # Members without a name

The bare name of a function keeps a character of its name that is no underscore. What the rule of
getters or setters removes from it may still be all there is: a member is exposed under the empty
name exactly if it is a getter with the bare name `get_` or a setter with the bare name `set_`.
The function is then named so, but for repetitions of the type on both sides. -/

namespace HeaderBindings

open List Text

/-! ## What a start leaves -/

namespace Text

theorem dropStart_eq_nil_iff {start t : Text} (h : t ≠ []) :
    dropStart start t = [] ↔ t = start := by
  by_cases hstart : start <+: t
  · obtain ⟨rest, rfl⟩ := hstart
    rw [dropStart_append]
    exact List.append_right_eq_self.symm
  · rw [dropStart_of_not_isPrefix hstart]
    refine iff_of_false h ?_
    rintro rfl
    exact hstart List.prefix_rfl

theorem dropWhile_dropStart_underscore (t : Text) :
    (dropStart "_" t).dropWhile (· == '_') = t.dropWhile (· == '_') := by
  by_cases hstart : "_".toList <+: t
  · obtain ⟨rest, rfl⟩ := hstart
    rw [dropStart_append]
    rfl
  · rw [dropStart_of_not_isPrefix hstart]

end Text

namespace Convention

/-! ## Bare names -/

theorem bareName_ne_nil {function : Text} (h : ∃ c ∈ function, c ≠ '_') (type : Text) :
    bareName function type ≠ [] := by
  obtain ⟨c, hc, hne⟩ := h
  have hfunction : function.dropWhile (· == '_') ≠ [] := by
    intro hnil
    exact hne (beq_iff_eq.mp (List.dropWhile_eq_nil_iff.mp hnil c hc))
  have hlower : dropStart "_" (lowercase function) ≠ [] := by
    intro hnil
    have hdrop := dropWhile_dropStart_underscore (lowercase function)
    rw [hnil, dropWhile_lowercase] at hdrop
    exact hfunction (lowercase_eq_nil_iff.mp hdrop.symm)
  rw [bareName]
  split
  next => exact hlower
  next hshort =>
    intro hnil
    rw [hnil] at hshort
    exact hshort rfl

/-- Repetitions of a type, each with an underscore behind it. -/
def typeSegments (type : Text) (count : ℕ) : Text :=
  (List.replicate count (type ++ ['_'])).flatten

namespace SegmentRun

variable {type kept t result : Text} {rounds : ℕ}

theorem exists_typeSegments (h : SegmentRun type kept t result rounds) (hkept : result = kept) :
    ∃ count, t = typeSegments type count := by
  induction h with
  | last ht => exact ⟨0, List.append_right_eq_self.mp hkept⟩
  | @skip kept t _ _ _ ih =>
      obtain ⟨count, rfl⟩ := ih hkept
      refine ⟨count + 1, ?_⟩
      simp [typeSegments, List.replicate_succ]
  | @copy kept first t result rounds hfirst hstart h _ =>
      rw [hkept] at h
      have hlength := congrArg List.length h.eq_append_dropSegments
      simp at hlength

/-- Where the loop copies one segment with its underscore, the type stands on both sides. -/
theorem exists_typeSegments_append (h : SegmentRun type kept t result rounds) {segment : Text}
    (hsegment : '_' ∉ segment) (hresult : result = kept ++ segment ++ ['_']) :
    ∃ before behind,
      t = typeSegments type before ++ (segment ++ '_' :: typeSegments type behind) := by
  induction h with
  | @last kept t ht =>
      rw [List.append_assoc, List.append_cancel_left_eq] at hresult
      refine absurd ?_ ht
      rw [hresult]
      exact List.mem_append_right segment List.mem_cons_self
  | @skip kept t _ _ _ ih =>
      obtain ⟨before, behind, rfl⟩ := ih hresult
      refine ⟨before + 1, behind, ?_⟩
      simp [typeSegments, List.replicate_succ]
  | @copy kept first t result rounds hfirst hstart h _ =>
      have hcopied := h.eq_append_dropSegments
      rw [hresult, List.append_assoc, List.append_assoc, List.append_assoc,
        List.append_cancel_left_eq] at hcopied
      obtain ⟨rfl, -, -⟩ :=
        (List.append_cons_inj_of_notMem hsegment List.not_mem_nil).mp hcopied
      obtain ⟨behind, rfl⟩ := h.exists_typeSegments hresult
      exact ⟨0, behind, rfl⟩

end SegmentRun

/-- A bare name of one segment and an underscore leaves nothing for the rest of the name but the
type. -/
theorem exists_typeSegments_of_bareName {function type segment : Text} (hsegment : '_' ∉ segment)
    (h : bareName function type = segment ++ ['_']) :
    ∃ before behind, dropStart "_" (lowercase function) =
      typeSegments (lowercase type) before ++
        (segment ++ '_' :: typeSegments (lowercase type) behind) := by
  rw [bareName] at h
  split at h
  · exact ⟨0, 0, h⟩
  · obtain ⟨result, rounds, -, hrun⟩ :=
      exists_segmentRun (lowercase type) [] (dropStart "_" (lowercase function))
    exact hrun.exists_typeSegments_append hsegment (hrun.eq_append_dropSegments.trans h)

/-! ## Rules -/

/-- Only the rules of getters and setters may leave nothing. -/
theorem snd_kindAndName_eq_nil_iff {traits : Traits} (h : traits.bareName ≠ []) :
    (kindAndName traits).2 = [] ↔ traits.worksOnObject = true ∧
      (traits.arity = 1 ∧ traits.bareName = "get_" ∨
        traits.arity = 2 ∧ traits.bareName = "set_") := by
  obtain ⟨kind, hsuits⟩ := exists_suits traits
  rw [snd_kindAndName, fst_kindAndName_eq_iff.mpr hsuits]
  cases kind with
  | getter =>
      rw [startOf, dropStart_eq_nil_iff h]
      simp [hsuits.worksOnObject, hsuits.arity_eq]
  | setter =>
      rw [startOf, dropStart_eq_nil_iff h]
      simp [hsuits.worksOnObject, hsuits.arity_eq]
  | method =>
      obtain ⟨hobject, hgetter, hsetter⟩ := hsuits
      refine iff_of_false h ?_
      rintro ⟨-, ⟨harity, hbare⟩ | ⟨harity, hbare⟩⟩
      · exact hgetter ⟨hobject, harity, "get_", by simp, hbare ▸ List.prefix_rfl⟩
      · exact hsetter ⟨hobject, harity, hbare ▸ List.prefix_rfl⟩
  | static =>
      refine iff_of_false h ?_
      rintro ⟨hobject, -⟩
      exact Bool.false_ne_true (hsuits.symm.trans hobject)

end Convention

/-! ## Members -/

namespace MemberPolicy

open Convention

variable {policy : MemberPolicy} {d : NativeFunction} {m : Member}

theorem exposed_of_member_eq_ok (h : policy.member d = .ok m) :
    m.exposed = (kindAndName (policy.traits d)).2 := by
  obtain ⟨-, rfl⟩ := member_eq_ok_iff.mp h
  rfl

/-- Of the functions whose names have a letter or a digit, only those are exposed under the empty
name whose bare name is what the rule of getters or setters removes. The name is then `get_` or
`set_` between repetitions of the type, but for case and a leading underscore. -/
theorem exposed_eq_nil_iff (h : policy.member d = .ok m) (hname : ∃ c ∈ d.name, c ≠ '_') :
    (m.exposed = [] ↔ policy.worksOnObject d = true ∧
      (d.params.length = 1 ∧ bareName d.name d.typeName = "get_" ∨
        d.params.length = 2 ∧ bareName d.name d.typeName = "set_")) ∧
    (m.exposed = [] → ∃ start : Text, (start = "get" ∨ start = "set") ∧
      ∃ before behind, dropStart "_" (lowercase d.name) =
        typeSegments (lowercase d.typeName) before ++
          (start ++ '_' :: typeSegments (lowercase d.typeName) behind)) := by
  have hiff : m.exposed = [] ↔ policy.worksOnObject d = true ∧
      (d.params.length = 1 ∧ bareName d.name d.typeName = "get_" ∨
        d.params.length = 2 ∧ bareName d.name d.typeName = "set_") := by
    rw [exposed_of_member_eq_ok h]
    exact snd_kindAndName_eq_nil_iff (bareName_ne_nil hname d.typeName)
  refine ⟨hiff, fun hempty => ?_⟩
  obtain ⟨-, ⟨-, hbare⟩ | ⟨-, hbare⟩⟩ := hiff.mp hempty
  · exact ⟨"get", .inl rfl, exists_typeSegments_of_bareName (by decide) hbare⟩
  · exact ⟨"set", .inr rfl, exists_typeSegments_of_bareName (by decide) hbare⟩

/-- The type is dropped on both sides of what the rule of getters removes. -/
theorem exposed_eq_nil_iff_getPed :
    let policy : MemberPolicy := ⟨⟨stockTypes⟩, {}, {}⟩
    let d : NativeFunction := ⟨"PED", "int", "_PED_GET_PED_PED_", [⟨"Ped", "ped"⟩], ⟨0, 9⟩⟩
    let m : Member := ⟨.getter, [], d⟩
    policy.member d = .ok m ∧ (∃ c ∈ d.name, c ≠ '_') ∧
      (m.exposed = [] ↔ policy.worksOnObject d = true ∧
        (d.params.length = 1 ∧ bareName d.name d.typeName = "get_" ∨
          d.params.length = 2 ∧ bareName d.name d.typeName = "set_")) ∧
      (m.exposed = [] → ∃ start : Text, (start = "get" ∨ start = "set") ∧
        ∃ before behind, dropStart "_" (lowercase d.name) =
          typeSegments (lowercase d.typeName) before ++
            (start ++ '_' :: typeSegments (lowercase d.typeName) behind)) := by
  intro policy d m
  have hmember : policy.member d = .ok m := by decide +kernel
  have hname : ∃ c ∈ d.name, c ≠ '_' := ⟨'P', by decide, by decide⟩
  exact ⟨hmember, hname, exposed_eq_nil_iff hmember hname⟩

/-- A getter that is named by its prefix alone has no name left. -/
theorem not_forall_exposed_ne_nil :
    ¬ ∀ (entries : List LogicalType) (table : TypeTable), TypeTable.ofEntries entries = .ok table →
      ∀ (handWritten : HandWritten) (names : NameFilter) (d : NativeFunction) (m : Member),
        MemberPolicy.member ⟨table, handWritten, names⟩ d = .ok m →
        (∃ c ∈ d.name, c.isAlphanum = true) → m.exposed ≠ [] := by
  intro h
  refine h stockTypes ⟨stockTypes⟩ (by decide +kernel) {} {}
    ⟨"PED", "int", "GET_", [⟨"Ped", "ped"⟩], ⟨0, 9⟩⟩
    ⟨.getter, [], ⟨"PED", "int", "GET_", [⟨"Ped", "ped"⟩], ⟨0, 9⟩⟩⟩ ?_ ?_ rfl
  · decide +kernel
  · exact ⟨'G', by decide, by decide⟩

end MemberPolicy

end HeaderBindings
