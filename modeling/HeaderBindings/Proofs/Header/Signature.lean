import HeaderBindings.Proofs.Header.Totality

/-! # Signatures

What a head has to be for a signature to be read from it: a type, a name and blanks, where the
character before the name takes one byte. -/

namespace HeaderBindings.Header

open List Text

/-- A head with the result type and the name that are written in it. The name is the last run of
name characters, and the rest before it is more than blanks. -/
inductive Signature : Text → Text → Text → Prop
  | intro {type name trail : Text}
      (hend : ∀ c ∈ type.getLast?, isNameChar c = false ∧ c.utf8Size = 1)
      (hresult : typeSpelling type ≠ []) (hname : IsName name)
      (hdigit : ∀ c ∈ name.head?, c.isDigit = false) (htrail : ∀ c ∈ trail, isBlank c = true) :
      Signature (type ++ (name ++ trail)) (typeSpelling type) name

theorem typeSpelling_append_of_forall_isBlank {lead : Text} (h : ∀ c ∈ lead, isBlank c = true)
    (type : Text) : typeSpelling (lead ++ type) = typeSpelling type := by
  rw [typeSpelling, words_append_of_forall_isBlank h, typeSpelling]

theorem signature_of_signature?_eq_some {head result name : Text}
    (h : signature? head = .ok (some (result, name))) : Signature head result name := by
  have hcuts := cutsBeforeName_of_signature? h
  obtain ⟨lead, trail, hhead, hlead, htrail⟩ := exists_trim_append head
  obtain ⟨type, run, hparts⟩ : ∃ type run, splitTrailing isNameChar (trim head) = (type, run) :=
    ⟨_, _, rfl⟩
  have htrim : type ++ run = trim head := by
    rw [← splitTrailing_fst_append_snd isNameChar (trim head), hparts]
  rw [signature?_of_cutsBeforeName hcuts hparts] at h
  split at h
  · cases h
  next hread =>
    cases h
    simp only [Bool.or_eq_true, not_or, List.isEmpty_iff] at hread
    obtain ⟨⟨hresult, hrun⟩, hdigit⟩ := hread
    have htype : type ≠ [] := by
      rintro rfl
      exact hresult rfl
    have hend : ∀ c ∈ (lead ++ type).getLast?, isNameChar c = false ∧ c.utf8Size = 1 := by
      rw [List.getLast?_append_of_ne_nil _ htype]
      intro c hc
      refine ⟨eq_false_of_mem_getLast?_splitTrailing (t := trim head) ?_, hcuts c ?_⟩ <;>
        rw [hparts] <;> exact hc
    have hname : IsName name := by
      refine ⟨hrun, fun c hc => mem_snd_splitTrailing (t := trim head) ?_⟩
      rw [hparts]
      exact hc
    have hstart : ∀ c ∈ name.head?, c.isDigit = false := by
      intro c hc
      rw [Option.mem_def.mp hc] at hdigit
      simpa using hdigit
    have hsignature := Signature.intro hend
      (by rwa [typeSpelling_append_of_forall_isBlank hlead]) hname hstart htrail
    rw [typeSpelling_append_of_forall_isBlank hlead, List.append_assoc, ← List.append_assoc type,
      htrim, ← hhead] at hsignature
    exact hsignature

theorem signature?_eq_some_of_signature {head result name : Text} (h : Signature head result name) :
    signature? head = .ok (some (result, name)) := by
  cases h with
  | @intro type name trail hend hresult hname hdigit htrail =>
      obtain ⟨lead, core, rfl, hlead, hcore⟩ := exists_run_append isBlank type
      rw [typeSpelling_append_of_forall_isBlank hlead] at hresult ⊢
      have hne : core ≠ [] := by
        rintro rfl
        exact hresult rfl
      rw [List.getLast?_append_of_ne_nil _ hne] at hend
      have htrim : trim (lead ++ core ++ (name ++ trail)) = core ++ name := by
        rw [List.append_assoc, trim_append_of_forall_isBlank hlead, trim_eq_trimEnd,
          ← List.append_assoc]
        · refine trimEnd_append (fun c hc => ?_) htrail
          rw [List.getLast?_append_of_ne_nil _ hname.ne_nil] at hc
          exact hname.isBlank_of_mem (List.mem_of_getLast? hc)
        · rw [List.head?_append_of_ne_nil _ hne]
          exact hcore
      have hparts : splitTrailing isNameChar (trim (lead ++ core ++ (name ++ trail))) =
          (core, name) := by
        rw [htrim]
        exact splitTrailing_of_getLast? (fun c hc => (hend c hc).1) hname.isNameChar
      have hcuts : CutsBeforeName (lead ++ core ++ (name ++ trail)) := by
        intro c hc
        rw [hparts] at hc
        exact (hend c hc).2
      have hstart : name.head?.any Char.isDigit = false := by
        cases hhead : name.head? with
        | none => rfl
        | some c => exact hdigit c hhead
      rw [signature?_of_cutsBeforeName hcuts hparts]
      simp [hresult, hname.ne_nil, hstart]

/-- A signature is read exactly where one is written. -/
theorem signature?_eq_some_iff {head result name : Text} :
    signature? head = .ok (some (result, name)) ↔ Signature head result name :=
  ⟨signature_of_signature?_eq_some, signature?_eq_some_of_signature⟩

instance (head result name : Text) : Decidable (Signature head result name) :=
  decidable_of_iff _ signature?_eq_some_iff

end HeaderBindings.Header
