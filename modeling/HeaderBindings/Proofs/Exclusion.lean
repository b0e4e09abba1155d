import HeaderBindings.Proofs.Binding.Emission
import HeaderBindings.Proofs.Classification.Verdict
import HeaderBindings.Proofs.Header.Naming

/-! # Exclusion by name

From a header to the generated code: which functions are reported as left out because of their
names, that all others are classified, and that no lambda calls and no failure lists a function
that was left out this way. -/

namespace HeaderBindings.MemberPolicy

open List Binding Header

variable {policy : MemberPolicy} {mapping : TypeMapping} {functions : List NativeFunction}

/-! ## Bound functions -/

theorem exists_function_of_mem_lambdas {call : Lambda}
    (h : call ∈ (nativeBindings mapping (policy.classify functions)).lambdas) :
    ∃ m, m.function ∈ functions ∧ policy.member m.function = .ok m ∧
      m.function.qualifiedName = call.native := by
  rw [lambdas_nativeBindings] at h
  obtain ⟨b, hb, hcall⟩ := exists_mem_types_of_mem_flatMap ClassBody.lambdas rfl h
  have hcovers := (covers_classBody mapping b.typeName (ordered_of_mem_types hb)).lambdas
  obtain ⟨m, hm, hlambda⟩ := List.mem_filterMap.mp (hcovers.mem_iff.mp hcall)
  obtain ⟨hmem, -, hmember⟩ := of_mem_members_of_mem_types hb hm
  exact ⟨m, hmem, hmember, (native_of_lambda?_eq_some hlambda).symm⟩

theorem exists_function_of_mem_failed {m : Member}
    (h : m ∈ (nativeBindings mapping (policy.classify functions)).failed) :
    m.function ∈ functions ∧ policy.member m.function = .ok m := by
  rw [failed_nativeBindings] at h
  obtain ⟨b, hb, hfailed⟩ := exists_mem_types_of_mem_flatMap ClassBody.failed rfl h
  have hcovers := (covers_classBody mapping b.typeName (ordered_of_mem_types hb)).failed
  have hm := (List.mem_filter.mp (hcovers.mem_iff.mp hfailed)).1
  obtain ⟨hmem, -, hmember⟩ := of_mem_members_of_mem_types hb hm
  exact ⟨hmem, hmember⟩

/-! ## Named functions -/

theorem omission?_eq_of_qualifiedName_eq {d e : NativeFunction} (hd : IsNamed d)
    (he : IsNamed e) (h : d.qualifiedName = e.qualifiedName) :
    policy.omission? d = policy.omission? e :=
  NameFilter.omission?_congr h (hd.eq_of_qualifiedName_eq he h).2

theorem mem_skipped_iff_of_isNamed {reason : Omission}
    (hreason : ∀ winner, reason ≠ .shadowed winner) (hnamed : ∀ d ∈ functions, IsNamed d)
    {d : NativeFunction} (hd : d ∈ functions) :
    (d.qualifiedName, reason) ∈ (policy.classify functions).skipped ↔
      policy.omission? d = some reason := by
  rw [mem_skipped_classify_iff hreason]
  constructor
  · rintro ⟨e, he, hverdict, hname⟩
    rw [← hverdict]
    exact omission?_eq_of_qualifiedName_eq (hnamed d hd) (hnamed e he) hname.symm
  · intro hverdict
    exact ⟨d, hd, hverdict, rfl⟩

/-- A name that was left out for its own sake belongs to no function that is classified, also
where the report is about another function of the name. -/
theorem ne_of_mem_skipped {reason : Omission} (hreason : ∀ winner, reason ≠ .shadowed winner)
    (hnamed : ∀ d ∈ functions, IsNamed d) {name : Text}
    (h : (name, reason) ∈ (policy.classify functions).skipped) {m : Member}
    (hmem : m.function ∈ functions) (hm : policy.member m.function = .ok m) :
    m.function.qualifiedName ≠ name := by
  rintro rfl
  have hverdict := (mem_skipped_iff_of_isNamed hreason hnamed hmem).mp h
  rw [omission?_eq_none_of_member_eq_ok hm] at hverdict
  exact absurd hverdict (by simp)

theorem not_bound_of_mem_skipped {reason : Omission}
    (hreason : ∀ winner, reason ≠ .shadowed winner) (hnamed : ∀ d ∈ functions, IsNamed d)
    {name : Text} (h : (name, reason) ∈ (policy.classify functions).skipped) :
    let bindings := nativeBindings mapping (policy.classify functions)
    name ∉ bindings.lambdas.map (·.native) ∧ name ∉ bindings.code.failed := by
  constructor
  · intro hmem
    obtain ⟨call, hcall, rfl⟩ := List.mem_map.mp hmem
    obtain ⟨m, hmem, hm, hname⟩ := exists_function_of_mem_lambdas hcall
    exact ne_of_mem_skipped hreason hnamed h hmem hm hname
  · intro hmem
    obtain ⟨m, hfailed, rfl⟩ := List.mem_map.mp hmem
    obtain ⟨hmem, hm⟩ := exists_function_of_mem_failed hfailed
    exact ne_of_mem_skipped hreason hnamed h hmem hm rfl

/-! ## The whole way -/

/-- Exclusion by name is exact. -/
structure ExclusionExact (policy : MemberPolicy) (functions : List NativeFunction)
    (result : Classification) (bindings : NativeBindings) : Prop where
  handWritten_iff : ∀ d ∈ functions, (d.qualifiedName, .handWritten) ∈ result.skipped ↔
    d.qualifiedName ∈ policy.handWritten.names
  hexName_iff : ∀ d ∈ functions, (d.qualifiedName, .hexName) ∈ result.skipped ↔
    d.qualifiedName ∉ policy.handWritten.names ∧ policy.names.IsHexName d.name
  /-- Every occurrence is reported, in source order. -/
  handWritten_reports : (result.skipped.filter (·.2 = .handWritten)).map Prod.fst =
    (functions.map (·.qualifiedName)).filter (· ∈ policy.handWritten.names)
  hexName_reports : (result.skipped.filter (·.2 = .hexName)).map Prod.fst =
    (functions.filter fun d => d.qualifiedName ∉ policy.handWritten.names ∧
      policy.names.IsHexName d.name).map (·.qualifiedName)
  classified : ∀ d ∈ functions, d.qualifiedName ∉ policy.handWritten.names →
    ¬ policy.names.IsHexName d.name → ∃ m, policy.member d = .ok m ∧
      ∃ b ∈ result.types, b.typeName = d.typeName ∧ (b.find? m.kind m.exposed).isSome
  not_bound : ∀ name reason, (name, reason) ∈ result.skipped →
    reason = .handWritten ∨ reason = .hexName →
      name ∉ bindings.lambdas.map (·.native) ∧ name ∉ bindings.code.failed

/-- Whatever the header, the hand-written natives and the configuration are, exclusion by name is
exact. -/
theorem exclusionExact_of_functionsOf {raw : Text} {found : Findings NativeFunction}
    (h : functionsOf raw = .ok found) (policy : MemberPolicy) (mapping : TypeMapping) :
    let result := policy.classify found.items
    ExclusionExact policy found.items result (nativeBindings mapping result) := by
  intro result
  have hnamed := isNamed_of_functionsOf h
  have hhandWritten : ∀ winner, Omission.handWritten ≠ .shadowed winner := by simp
  have hhexName : ∀ winner, Omission.hexName ≠ .shadowed winner := by simp
  refine ⟨?_, ?_, ?_, ?_, ?_, ?_⟩
  · intro d hd
    rw [mem_skipped_iff_of_isNamed hhandWritten hnamed hd]
    exact NameFilter.omission?_eq_handWritten_iff
  · intro d hd
    rw [mem_skipped_iff_of_isNamed hhexName hnamed hd]
    exact NameFilter.omission?_eq_hexName_iff
  · rw [filter_skipped_classify hhandWritten, List.map_map, List.filter_map]
    refine congrArg _ (List.filter_congr ?_)
    intro d _
    exact decide_eq_decide.mpr NameFilter.omission?_eq_handWritten_iff
  · rw [filter_skipped_classify hhexName, List.map_map]
    refine congrArg _ (List.filter_congr ?_)
    intro d _
    exact decide_eq_decide.mpr NameFilter.omission?_eq_hexName_iff
  · intro d hd hname hhex
    obtain ⟨m, hm⟩ := exists_member_eq_ok (NameFilter.omission?_of_not hname hhex)
    exact ⟨m, hm, exists_held hd hm⟩
  · intro name reason hskipped hreason
    refine not_bound_of_mem_skipped ?_ hnamed hskipped
    rcases hreason with rfl | rfl
    · exact hhandWritten
    · exact hhexName

theorem exclusionExact_of_three :
    let raw : Text :=
      "namespace PED \x7b static int GET(Ped p) \x7b\x7d static int _0xC() \x7b\x7d " ++
        "static int _0xSET_CONTROL() \x7b\x7d \x7d"
    let functions : List NativeFunction :=
      [⟨"PED", "int", "GET", [⟨"Ped", "p"⟩], ⟨16, 40⟩⟩, ⟨"PED", "int", "_0xC", [], ⟨41, 61⟩⟩,
        ⟨"PED", "int", "_0xSET_CONTROL", [], ⟨62, 92⟩⟩]
    let policy : MemberPolicy := ⟨⟨stockTypes⟩, ⟨["PED::GET"]⟩, {}⟩
    let mapping : TypeMapping := ⟨⟨stockTypes⟩, {}⟩
    let result := policy.classify functions
    functionsOf raw = .ok { items := functions } ∧
      ExclusionExact policy functions result (nativeBindings mapping result) :=
  have h : functionsOf
      ("namespace PED \x7b static int GET(Ped p) \x7b\x7d static int _0xC() \x7b\x7d " ++
        "static int _0xSET_CONTROL() \x7b\x7d \x7d") = .ok { items := _ } := by decide +kernel
  ⟨h, exclusionExact_of_functionsOf h _ _⟩

end HeaderBindings.MemberPolicy
