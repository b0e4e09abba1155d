import HeaderBindings.Proofs.Classification.Accounting
import HeaderBindings.Proofs.Text

/-! # Names that keep functions out

The verdict on a name in terms of what the name holds, and the reports of a classification that
are about names. -/

namespace HeaderBindings

open List Text

/-- A name that starts like the hexadecimal ones and holds no exempt text, in any case. -/
structure NameFilter.IsHexName (filter : NameFilter) (name : Text) : Prop where
  starts : filter.hexPrefix <+: name
  not_exempt : ∀ exempt ∈ filter.hexExempt, ¬ lowercase exempt <:+: lowercase name

instance (filter : NameFilter) (name : Text) : Decidable (filter.IsHexName name) :=
  decidable_of_iff
    (filter.hexPrefix <+: name ∧
      ∀ exempt ∈ filter.hexExempt, ¬ lowercase exempt <:+: lowercase name)
    ⟨fun h => ⟨h.1, h.2⟩, fun h => ⟨h.starts, h.not_exempt⟩⟩

namespace NameFilter

variable {filter : NameFilter} {handWritten : HandWritten} {d e : NativeFunction}

theorem contains_iff {name : Text} :
    handWritten.contains name = true ↔ name ∈ handWritten.names := by
  simp [HandWritten.contains]

/-! ## Verdicts -/

theorem omission?_of_mem (h : d.qualifiedName ∈ handWritten.names) :
    filter.omission? handWritten d = some .handWritten := by
  rw [omission?, if_pos (contains_iff.mpr h)]

theorem omission?_of_isHexName (h : d.qualifiedName ∉ handWritten.names)
    (hhex : filter.IsHexName d.name) : filter.omission? handWritten d = some .hexName := by
  have hexempt : ¬ filter.hexExempt.any
      (fun exempt => occursIn (lowercase exempt) (lowercase d.name)) = true := by
    simp only [List.any_eq_true, occursIn_iff, not_exists, not_and]
    exact hhex.not_exempt
  rw [omission?, if_neg (contains_iff.not.mpr h), if_neg hexempt,
    if_pos (startsWith_iff.mpr hhex.starts)]

theorem omission?_of_not (h : d.qualifiedName ∉ handWritten.names)
    (hhex : ¬ filter.IsHexName d.name) : filter.omission? handWritten d = none := by
  rw [omission?, if_neg (contains_iff.not.mpr h)]
  split
  · rfl
  next hexempt =>
    simp only [List.any_eq_true, occursIn_iff, not_exists, not_and] at hexempt
    rw [if_neg]
    intro hstarts
    exact hhex ⟨startsWith_iff.mp hstarts, hexempt⟩

/-- The three verdicts exclude each other. -/
theorem omission?_cases (filter : NameFilter) (handWritten : HandWritten) (d : NativeFunction) :
    (d.qualifiedName ∈ handWritten.names ∧
        filter.omission? handWritten d = some .handWritten) ∨
      (d.qualifiedName ∉ handWritten.names ∧ filter.IsHexName d.name ∧
        filter.omission? handWritten d = some .hexName) ∨
      (d.qualifiedName ∉ handWritten.names ∧ ¬ filter.IsHexName d.name ∧
        filter.omission? handWritten d = none) := by
  by_cases h : d.qualifiedName ∈ handWritten.names
  · exact .inl ⟨h, omission?_of_mem h⟩
  by_cases hhex : filter.IsHexName d.name
  · exact .inr (.inl ⟨h, hhex, omission?_of_isHexName h hhex⟩)
  · exact .inr (.inr ⟨h, hhex, omission?_of_not h hhex⟩)

theorem omission?_eq_handWritten_iff :
    filter.omission? handWritten d = some .handWritten ↔
      d.qualifiedName ∈ handWritten.names := by
  rcases omission?_cases filter handWritten d with ⟨h, hd⟩ | ⟨h, -, hd⟩ | ⟨h, -, hd⟩ <;>
    simp [h, hd]

theorem omission?_eq_hexName_iff :
    filter.omission? handWritten d = some .hexName ↔
      d.qualifiedName ∉ handWritten.names ∧ filter.IsHexName d.name := by
  rcases omission?_cases filter handWritten d with ⟨h, hd⟩ | ⟨h, hhex, hd⟩ | ⟨h, hhex, hd⟩
  · simp [h, hd]
  · simp [h, hhex, hd]
  · simp [h, hhex, hd]

theorem omission?_congr (hqualified : d.qualifiedName = e.qualifiedName)
    (hname : d.name = e.name) :
    filter.omission? handWritten d = filter.omission? handWritten e := by
  rw [omission?, omission?, hqualified, hname]

end NameFilter

namespace MemberPolicy

variable {policy : MemberPolicy}

/-- Why the name of a function keeps it out. -/
def omission? (policy : MemberPolicy) (d : NativeFunction) : Option Omission :=
  policy.names.omission? policy.handWritten d

theorem member_eq_error_iff {d : NativeFunction} {reason : Omission} :
    policy.member d = .error reason ↔ policy.omission? d = some reason := by
  rw [member, omission?]
  cases policy.names.omission? policy.handWritten d <;> simp

theorem omission?_eq_none_of_member_eq_ok {d : NativeFunction} {m : Member}
    (h : policy.member d = .ok m) : policy.omission? d = none :=
  (member_eq_ok_iff.mp h).1

theorem exists_member_eq_ok {d : NativeFunction} (h : policy.omission? d = none) :
    ∃ m, policy.member d = .ok m :=
  ⟨_, member_eq_ok_iff.mpr ⟨h, rfl⟩⟩

/-! ## Reports -/

/-- The reports with a reason that lies in the name, in source order. -/
theorem filter_skipped_classify {reason : Omission}
    (hreason : ∀ winner, reason ≠ .shadowed winner) (functions : List NativeFunction) :
    (policy.classify functions).skipped.filter (·.2 = reason) =
      (functions.filter fun d => policy.omission? d = some reason).map
        fun d => (d.qualifiedName, reason) := by
  induction functions using List.reverseRecOn with
  | nil => rfl
  | append_singleton functions d ih =>
      rw [skipped_classify_append_singleton, List.filter_append, ih, List.filter_append,
        List.map_append, reports]
      congr 1
      cases hd : policy.member d with
      | error other =>
          have homission := member_eq_error_iff.mp hd
          by_cases hother : other = reason
          · simp [homission, hother]
          · simp [homission, hother]
      | ok m =>
          have hnone : policy.omission? d = none := omission?_eq_none_of_member_eq_ok hd
          have hshadowed : ((policy.loser? functions d).toList.map fun loser =>
              (loser.function.qualifiedName,
                Omission.shadowed d.qualifiedName)).filter (·.2 = reason) = [] := by
            rw [List.filter_eq_nil_iff]
            intro entry hentry
            obtain ⟨loser, -, rfl⟩ := List.mem_map.mp hentry
            simpa using fun h => hreason _ h.symm
          rw [hshadowed]
          simp [hnone]

theorem mem_skipped_classify_iff {reason : Omission}
    (hreason : ∀ winner, reason ≠ .shadowed winner) {functions : List NativeFunction}
    {name : Text} :
    (name, reason) ∈ (policy.classify functions).skipped ↔
      ∃ d ∈ functions, policy.omission? d = some reason ∧ d.qualifiedName = name := by
  have hmem : (name, reason) ∈ (policy.classify functions).skipped ↔
      (name, reason) ∈ (policy.classify functions).skipped.filter (·.2 = reason) := by
    simp
  rw [hmem, filter_skipped_classify hreason]
  simp [and_assoc]

/-- A function that its name does not keep out has a place, and the place is held. -/
theorem exists_held {functions : List NativeFunction} {d : NativeFunction} {m : Member}
    (hd : d ∈ functions) (hm : policy.member d = .ok m) :
    ∃ b ∈ (policy.classify functions).types, b.typeName = d.typeName ∧
      (b.find? m.kind m.exposed).isSome := by
  refine ⟨policy.gather d.typeName functions, mem_types_classify_iff.mpr ⟨d, hd, rfl⟩,
    typeName_gather _ _, ?_⟩
  have hplace : policy.place? d = some ⟨d.typeName, m.kind, m.exposed⟩ :=
    place?_eq_some_iff.mpr ⟨m, hm, rfl⟩
  have hcontender : d ∈ policy.contenders ⟨d.typeName, m.kind, m.exposed⟩ functions :=
    List.mem_filter.mpr ⟨hd, by simpa using hplace⟩
  obtain ⟨last, hlast⟩ := Option.isSome_iff_exists.mp
    (List.getLast?_isSome.mpr (List.ne_nil_of_mem hcontender))
  have hlastPlace : policy.place? last = some ⟨d.typeName, m.kind, m.exposed⟩ := by
    simpa using (List.mem_filter.mp (List.mem_of_getLast? hlast)).2
  obtain ⟨held, hheld, -⟩ := place?_eq_some_iff.mp hlastPlace
  rw [find?_gather, hlast, Option.bind_some, member?_eq_some_iff.mpr hheld]
  rfl

end MemberPolicy

end HeaderBindings
