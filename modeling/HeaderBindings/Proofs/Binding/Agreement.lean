import HeaderBindings.Proofs.Binding.Declarations
import HeaderBindings.Proofs.Classification.Filing

/-! # Agreement of the two artifacts

The header defines a wrapper for the same types for which the registration code declares hooks
and handles and calls the hooks, each once and parents first. Lambdas wrap nothing but registered
types, and the wrapper of a registered type holds a handle, its own or an ancestor's. -/

namespace HeaderBindings

open List Text Header Binding LogicalType

/-! ## Names of types -/

theorem isNameChar_toLower {c : Char} (h : isNameChar c = true) :
    isNameChar c.toLower = true := by
  have hall : ∀ n < 128, isNameChar (Char.ofNat n) = true →
      isNameChar (Char.ofNat n).toLower = true := by decide +kernel
  have hascii : c.toNat < 128 := by
    have := toNat_of_isNameChar h
    omega
  exact forall_ascii (fun c => isNameChar c = true → isNameChar c.toLower = true) hall hascii h

theorem isNameChar_lowercase {t : Text} (h : ∀ c ∈ t, isNameChar c = true) :
    ∀ c ∈ lowercase t, isNameChar c = true := by
  have hascii : ∀ c ∈ t, c.toNat < 128 := by
    intro c hc
    have := toNat_of_isNameChar (h c hc)
    omega
  rw [lowercase_of_ascii hascii]
  intro c hc
  obtain ⟨capital, hcapital, rfl⟩ := List.mem_map.mp hc
  exact isNameChar_toLower (h capital hcapital)

theorem NativeFunction.isName_typeName {d : NativeFunction} (h : IsName d.scope) :
    IsName d.typeName := by
  obtain ⟨scope, result, name, params, span⟩ := d
  cases scope with
  | nil => exact absurd rfl h.ne_nil
  | cons first rest =>
      obtain ⟨hfirst, hrest⟩ := List.forall_mem_cons.mp h.isNameChar
      refine ⟨List.cons_ne_nil _ _, ?_⟩
      exact List.forall_mem_cons.mpr ⟨hfirst, isNameChar_lowercase hrest⟩

namespace Binding

/-! ## Handles -/

section

variable {mapping : TypeMapping} {type name : Text}

theorem param_eq_ok_iff {index : Nat} {p : BoundParameter} :
    mapping.param index type name = .ok p ↔
      type ∈ mapping.table.names ∧ p = ⟨type, true, name⟩ ∨
        type ∉ mapping.table.names ∧ type ∈ mapping.plain.params ∧ p = ⟨type, false, name⟩ := by
  rw [TypeMapping.param, ← TypeTable.contains_iff]
  have hallows : mapping.plain.allowsParameter type = true ↔ type ∈ mapping.plain.params := by
    simp [PlainTypes.allowsParameter]
  by_cases hcontains : mapping.table.contains type = true
  · rw [if_pos hcontains, Except.ok.injEq, eq_comm]
    simp [hcontains]
  · by_cases hplain : type ∈ mapping.plain.params
    · rw [if_neg hcontains, if_pos (hallows.mpr hplain), Except.ok.injEq, eq_comm]
      simp [hcontains, hplain]
    · simp [hcontains, hallows, hplain]

theorem result_eq_ok_iff {spelling : Text} :
    mapping.result type = .ok spelling ↔
      type ∈ mapping.table.names ∧ spelling = wrapperOf type ∨
        type ∉ mapping.table.names ∧ mapping.plain.allowsResult type = true ∧ spelling = type := by
  rw [TypeMapping.result, ← TypeTable.contains_iff]
  by_cases hcontains : mapping.table.contains type = true
  · rw [if_pos hcontains, Except.ok.injEq, eq_comm]
    simp [hcontains]
  · by_cases hallowed : mapping.plain.allowsResult type = true
    · rw [if_neg hcontains, if_pos hallowed, Except.ok.injEq, eq_comm]
      simp [hcontains, hallowed]
    · simp [hcontains, hallowed]

theorem exists_param_of_mem_boundParameters {m : Member} {index : Nat} {params : List Parameter}
    {bound : List BoundParameter} (h : boundParameters mapping type m index params = .ok bound)
    {p : BoundParameter} (hp : p ∈ bound) :
    ∃ place declared, ∃ q ∈ params, mapping.param place declared q.name = .ok p := by
  induction params generalizing index bound with
  | nil =>
      obtain rfl : [] = bound := Except.ok.inj h
      exact absurd hp List.not_mem_nil
  | cons q params ih =>
      obtain ⟨first, hfirst, h⟩ := bind_eq_ok_iff.mp h
      obtain ⟨others, hothers, h⟩ := bind_eq_ok_iff.mp h
      obtain rfl : first :: others = bound := Except.ok.inj h
      rcases List.mem_cons.mp hp with rfl | hp
      · exact ⟨index, _, q, List.mem_cons_self, hfirst⟩
      · obtain ⟨place, declared, other, hother, hparam⟩ := ih hothers hp
        exact ⟨place, declared, other, List.mem_cons_of_mem q hother, hparam⟩

end

/-- A lambda wraps the registered types among those that it maps, and no others. -/
structure WrapsRegistered (registered : List Text) (m : Member) (call : Lambda) : Prop where
  params : ∀ p ∈ call.params, p.isWrapped = true ↔ p.type ∈ registered
  result : call.result =
    if m.function.result ∈ registered then wrapperOf m.function.result else m.function.result

section

variable {α : Type} {table : TypeTable} {mark : Text → Line → Bool} {key : α → Text}
  {piece : α → List Line} {opening closing : List Line} {ofEntry : LogicalType → α}
  {others : List α}

end

/-! ## Both artifacts -/

section

variable {entries : List LogicalType} {mapping : TypeMapping} {c : Classification}
  {type : Text}

/-- The table holds the entries, parents first and each type once, and the types that have code
are names. -/
structure Accepted (entries : List LogicalType) (mapping : TypeMapping) (c : Classification) :
    Prop where
  perm : mapping.table.entries ~ entries
  parentsFirst : ParentsFirst mapping.table.entries
  nodup : mapping.table.names.Nodup
  isName : ∀ type ∈ emissionOrder mapping c, IsName type

theorem Accepted.mem_names_iff (h : Accepted entries mapping c) :
    type ∈ mapping.table.names ↔ type ∈ entries.map (·.name) :=
  (h.perm.map (·.name)).mem_iff

end

theorem WrapsRegistered.congr {registered registered' : List Text} {m : Member} {call : Lambda}
    (h : WrapsRegistered registered m call)
    (hmem : ∀ type, type ∈ registered ↔ type ∈ registered') :
    WrapsRegistered registered' m call where
  params p hp := (h.params p hp).trans (hmem p.type)
  result := h.result.trans (if_congr (hmem m.function.result) rfl rfl)

end Binding

end HeaderBindings
