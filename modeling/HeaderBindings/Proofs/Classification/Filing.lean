import HeaderBindings.Proofs.Convention.Kinds

/-! # How functions are filed

A classification has one entry for each type that occurs. The members of a type are its own
functions, each under the kind and the exposed name that the convention gives it, so that a getter
has one parameter, a setter two, and a type that is not registered has statics only. -/

namespace HeaderBindings

open List

namespace MemberPolicy

variable {policy : MemberPolicy} {functions : List NativeFunction}

/-! ## Kinds of members -/

theorem length_params_of_kind_eq_getter {d : NativeFunction} {m : Member}
    (h : policy.member d = .ok m) (hkind : m.kind = .getter) : d.params.length = 1 :=
  ((kind_eq_iff_of_member h .getter).mp hkind).arity_eq

theorem length_params_of_kind_eq_setter {d : NativeFunction} {m : Member}
    (h : policy.member d = .ok m) (hkind : m.kind = .setter) : d.params.length = 2 :=
  ((kind_eq_iff_of_member h .setter).mp hkind).arity_eq

/-- Only functions of registered types have an owner. -/
theorem mem_names_of_member_eq_ok {d : NativeFunction} {m : Member} (h : policy.member d = .ok m)
    (howner : m.takesOwner = true) : d.typeName ∈ policy.table.names :=
  (worksOnObject_of_member h (by simpa [Member.takesOwner] using howner)).mem_names

theorem mem_names_of_takesOwner {b : TypeMembers} (hb : b ∈ (policy.classify functions).types)
    {m : Member} (hm : m ∈ b.members) (howner : m.takesOwner = true) :
    b.typeName ∈ policy.table.names := by
  obtain ⟨-, htype, hmember⟩ := of_mem_members_of_mem_types hb hm
  rw [← htype]
  exact mem_names_of_member_eq_ok hmember howner

/-! ## Members of a type -/

theorem filed_of_mem_types {b : TypeMembers} (hb : b ∈ (policy.classify functions).types) :
    b.Filed := by
  obtain ⟨d, -, rfl⟩ := mem_types_classify_iff.mp hb
  exact policy.filed_gather _ _

theorem kind_eq_static_of_not_contains {b : TypeMembers}
    (hb : b ∈ (policy.classify functions).types)
    (htype : policy.table.contains b.typeName = false) {m : Member} (hm : m ∈ b.members) :
    m.kind = .static := by
  by_contra hkind
  have howner : m.takesOwner = true := by simpa [Member.takesOwner] using hkind
  have hname := mem_names_of_takesOwner hb hm howner
  rw [← TypeTable.contains_iff, htype] at hname
  exact Bool.false_ne_true hname

/-! ## The whole classification -/

/-- What holds of a classification of functions, whatever their order. -/
structure WellFiled (policy : MemberPolicy) (functions : List NativeFunction)
    (result : Classification) : Prop where
  nodup_types : (result.types.map (·.typeName)).Nodup
  /-- Functions that are left out count as well. -/
  mem_types_iff : ∀ type,
    type ∈ result.types.map (·.typeName) ↔ type ∈ functions.map (·.typeName)
  typeName_eq : ∀ type b,
    Keyed.find? TypeMembers.typeName type result.types = some b → b.typeName = type
  exists_function : ∀ b ∈ result.types, ∀ m ∈ b.members,
    ∃ d ∈ functions, d.typeName = b.typeName ∧ policy.member d = .ok m
  /-- Every member is stored under its own kind and exposed name. -/
  stored : ∀ b ∈ result.types, ∀ kind, ∀ m ∈ b.ofKind kind,
    m.kind = kind ∧ b.find? kind m.exposed = some m
  length_params_getter : ∀ b ∈ result.types, ∀ m ∈ b.getters, m.function.params.length = 1
  length_params_setter : ∀ b ∈ result.types, ∀ m ∈ b.setters, m.function.params.length = 2
  /-- Only registered types have members with an owner. -/
  statics_only : ∀ b ∈ result.types, policy.table.contains b.typeName = false →
    ∀ m ∈ b.members, m.kind = .static

/-- Every classification is filed well. -/
theorem wellFiled_classify (policy : MemberPolicy) (functions : List NativeFunction) :
    WellFiled policy functions (policy.classify functions) := by
  have hsorted := policy.sorted_types_classify functions
  have hbecomes : ∀ b ∈ (policy.classify functions).types, ∀ kind, ∀ m ∈ b.ofKind kind,
      m.kind = kind ∧ policy.member m.function = .ok m := by
    intro b hb kind m hm
    have hmem : m ∈ b.members := TypeMembers.mem_members_iff.mpr ⟨kind, hm⟩
    exact ⟨(filed_of_mem_types hb).kind_eq kind m hm, (of_mem_members_of_mem_types hb hmem).2.2⟩
  constructor
  case nodup_types => exact hsorted.nodup_keys
  case mem_types_iff =>
    intro type
    simp only [List.mem_map, mem_types_classify_iff]
    constructor
    · rintro ⟨_, ⟨d, hd, rfl⟩, rfl⟩
      exact ⟨d, hd, (typeName_gather _ _).symm⟩
    · rintro ⟨d, hd, rfl⟩
      exact ⟨_, ⟨d, hd, rfl⟩, typeName_gather _ _⟩
  case typeName_eq => exact fun type b => Keyed.key_of_find?_eq_some
  case exists_function =>
    intro b hb m hm
    obtain ⟨hd, htype, hmember⟩ := of_mem_members_of_mem_types hb hm
    exact ⟨m.function, hd, htype, hmember⟩
  case stored =>
    intro b hb kind m hm
    have hfiled := filed_of_mem_types hb
    have hkind := hfiled.kind_eq kind m hm
    exact ⟨hkind, hkind ▸ hfiled.find?_eq_some_of_mem hm⟩
  case length_params_getter =>
    intro b hb m hm
    obtain ⟨hkind, hmember⟩ := hbecomes b hb .getter m hm
    exact length_params_of_kind_eq_getter hmember hkind
  case length_params_setter =>
    intro b hb m hm
    obtain ⟨hkind, hmember⟩ := hbecomes b hb .setter m hm
    exact length_params_of_kind_eq_setter hmember hkind
  case statics_only =>
    intro b hb htype m hm
    exact kind_eq_static_of_not_contains hb htype hm

end MemberPolicy

end HeaderBindings
