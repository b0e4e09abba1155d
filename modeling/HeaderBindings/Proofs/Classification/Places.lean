import HeaderBindings.Classification
import HeaderBindings.Proofs.TypeMembers
import Mathlib.Data.List.Induction

/-! # Places of members

Every function that its name does not keep out takes a place: a type, and a kind and an exposed
name there. A classification files each type by itself, and a type holds at each place the last
function in source order that takes it. -/

namespace HeaderBindings

open List

/-- A place for one member. -/
structure Place where
  type : Text
  kind : MemberKind
  exposed : Text
deriving DecidableEq, Repr

namespace MemberPolicy

variable {policy : MemberPolicy}

/-! ## The member of a function -/

/-- The member that a function becomes, if it is not left out. -/
def member? (policy : MemberPolicy) (d : NativeFunction) : Option Member :=
  (policy.member d).toOption

theorem member?_eq_some_iff {d : NativeFunction} {m : Member} :
    policy.member? d = some m ↔ policy.member d = .ok m := by
  rw [member?]
  cases policy.member d <;> simp [Except.toOption]

/-- A function that its name does not keep out becomes the member of the convention. -/
theorem member_eq_ok_iff {d : NativeFunction} {m : Member} :
    policy.member d = .ok m ↔ policy.names.omission? policy.handWritten d = none ∧
      m = ⟨(Convention.kindAndName (policy.traits d)).1,
        (Convention.kindAndName (policy.traits d)).2, d⟩ := by
  rw [member]
  cases policy.names.omission? policy.handWritten d with
  | some reason => simp
  | none => simp [eq_comm]

theorem function_of_member_eq_ok {d : NativeFunction} {m : Member}
    (h : policy.member d = .ok m) : m.function = d := by
  obtain ⟨-, rfl⟩ := member_eq_ok_iff.mp h
  rfl

theorem function_of_member?_eq_some {d : NativeFunction} {m : Member}
    (h : policy.member? d = some m) : m.function = d :=
  function_of_member_eq_ok (member?_eq_some_iff.mp h)

/-- The place that a function takes, if it is not left out. -/
def place? (policy : MemberPolicy) (d : NativeFunction) : Option Place :=
  (policy.member? d).map fun m => ⟨d.typeName, m.kind, m.exposed⟩

theorem place?_eq_some_iff {d : NativeFunction} {place : Place} :
    policy.place? d = some place ↔
      ∃ m, policy.member d = .ok m ∧ ⟨d.typeName, m.kind, m.exposed⟩ = place := by
  simp [place?, member?_eq_some_iff]

theorem place?_eq_none_of_member_eq_error {d : NativeFunction} {reason : Omission}
    (h : policy.member d = .error reason) : policy.place? d = none := by
  rw [place?, member?, h]
  rfl

/-- The functions that compete for a place, in source order. -/
def contenders (policy : MemberPolicy) (place : Place) (functions : List NativeFunction) :
    List NativeFunction :=
  functions.filter fun d => policy.place? d = some place

theorem contenders_append_singleton (place : Place) (functions : List NativeFunction)
    (d : NativeFunction) :
    policy.contenders place (functions ++ [d]) =
      if policy.place? d = some place then policy.contenders place functions ++ [d]
      else policy.contenders place functions := by
  rw [contenders, List.filter_append, ← contenders]
  by_cases h : policy.place? d = some place <;> simp [h]

/-! ## One type -/

/-- The members of a type after one more of its functions. -/
def receive (policy : MemberPolicy) (b : TypeMembers) (d : NativeFunction) : TypeMembers :=
  match policy.member d with
  | .ok m => b.insert m
  | .error _ => b

@[simp] theorem typeName_receive (b : TypeMembers) (d : NativeFunction) :
    (policy.receive b d).typeName = b.typeName := by
  rw [receive]
  split
  · exact TypeMembers.typeName_insert _ b
  · rfl

/-- The members of a type, from its own functions alone. -/
def gather (policy : MemberPolicy) (type : Text) (functions : List NativeFunction) :
    TypeMembers :=
  (functions.filter (·.typeName = type)).foldl policy.receive { typeName := type }

theorem gather_append_singleton (type : Text) (functions : List NativeFunction)
    (d : NativeFunction) :
    policy.gather type (functions ++ [d]) =
      if d.typeName = type then policy.receive (policy.gather type functions) d
      else policy.gather type functions := by
  rw [gather, List.filter_append, List.foldl_append]
  by_cases h : d.typeName = type <;> simp [h, gather]

variable (policy) in
/-- A type has come to have the members that its functions become, in source order. -/
theorem gather_eq_ofMembers (type : Text) (functions : List NativeFunction) :
    policy.gather type functions =
      .ofMembers type ((functions.filter (·.typeName = type)).filterMap policy.member?) := by
  rw [gather, TypeMembers.ofMembers, List.foldl_filterMap]
  congr 1
  funext b d
  rw [receive, member?]
  cases policy.member d <;> rfl

@[simp] theorem typeName_gather (type : Text) (functions : List NativeFunction) :
    (policy.gather type functions).typeName = type := by
  rw [gather_eq_ofMembers, TypeMembers.typeName_ofMembers]

variable (policy) in
theorem filed_gather (type : Text) (functions : List NativeFunction) :
    (policy.gather type functions).Filed := by
  rw [gather_eq_ofMembers]
  exact TypeMembers.filed_ofMembers _ _

variable (policy) in
theorem ordered_gather (type : Text) (functions : List NativeFunction) :
    (policy.gather type functions).Ordered :=
  (policy.filed_gather type functions).toOrdered

theorem gather_eq_empty_of_forall_ne {type : Text} {functions : List NativeFunction}
    (h : ∀ d ∈ functions, d.typeName ≠ type) :
    policy.gather type functions = { typeName := type } := by
  have hnil : functions.filter (·.typeName = type) = [] := by simpa using h
  rw [gather, hnil, List.foldl_nil]

/-- At every place of a type stands the last of the functions that compete for it. The last
function is filed last, so the induction is from the end. -/
theorem find?_gather (type : Text) (kind : MemberKind) (exposed : Text)
    (functions : List NativeFunction) :
    (policy.gather type functions).find? kind exposed =
      (policy.contenders ⟨type, kind, exposed⟩ functions).getLast?.bind policy.member? := by
  induction functions using List.reverseRecOn with
  | nil => exact TypeMembers.find?_empty type kind exposed
  | append_singleton functions d ih =>
      rw [gather_append_singleton, contenders_append_singleton]
      by_cases hplace : policy.place? d = some ⟨type, kind, exposed⟩
      · obtain ⟨m, hm, hp⟩ := place?_eq_some_iff.mp hplace
        obtain ⟨rfl, rfl, rfl⟩ := Place.mk.inj hp
        have hlast : policy.member? d = some m := member?_eq_some_iff.mpr hm
        rw [if_pos rfl, receive, hm]
        simp [hplace, hlast, TypeMembers.find?_insert (policy.ordered_gather _ _)]
      · rw [if_neg hplace]
        split
        next htype =>
          rw [receive]
          split
          next m hm =>
            have hne : ¬(m.kind = kind ∧ m.exposed = exposed) := by
              rintro ⟨rfl, rfl⟩
              exact hplace (place?_eq_some_iff.mpr ⟨m, hm, by rw [htype]⟩)
            rw [TypeMembers.find?_insert (policy.ordered_gather _ _), if_neg hne, ih]
          next hm => exact ih
        next htype => exact ih

theorem of_mem_gather {type : Text} {functions : List NativeFunction} {m : Member}
    (h : m ∈ (policy.gather type functions).members) :
    m.function ∈ functions ∧ m.function.typeName = type ∧ policy.member m.function = .ok m := by
  rw [gather_eq_ofMembers] at h
  obtain ⟨d, hd, hm⟩ := List.mem_filterMap.mp (TypeMembers.mem_of_mem_members_ofMembers h)
  obtain ⟨hmem, htype⟩ := List.mem_filter.mp hd
  rw [function_of_member?_eq_some hm]
  exact ⟨hmem, of_decide_eq_true htype, member?_eq_some_iff.mp hm⟩

/-! ## All types -/

theorem classify_append_singleton (functions : List NativeFunction) (d : NativeFunction) :
    policy.classify (functions ++ [d]) = policy.add (policy.classify functions) d := by
  simp [classify, List.foldl_append]

theorem types_add (c : Classification) (d : NativeFunction) :
    (policy.add c d).types =
      Keyed.insert TypeMembers.typeName
        (policy.receive
          ((Keyed.find? TypeMembers.typeName d.typeName c.types).getD { typeName := d.typeName })
          d)
        c.types := by
  rw [add, receive]
  cases policy.member d <;> rfl

variable (policy) in
theorem sorted_types_classify (functions : List NativeFunction) :
    Keyed.Sorted TypeMembers.typeName (policy.classify functions).types := by
  induction functions using List.reverseRecOn with
  | nil => exact List.Pairwise.nil
  | append_singleton functions d ih =>
      rw [classify_append_singleton, types_add]
      exact Keyed.sorted_insert _ ih

theorem getD_eq_gather {type : Text} {functions : List NativeFunction}
    {found : Option TypeMembers}
    (h : found = if ∃ d ∈ functions, d.typeName = type then some (policy.gather type functions)
      else none) :
    found.getD { typeName := type } = policy.gather type functions := by
  rw [h]
  split
  · rfl
  next hnone =>
    have hnone : ∀ d ∈ functions, d.typeName ≠ type := by simpa using hnone
    exact (gather_eq_empty_of_forall_ne hnone).symm

variable (policy) in
/-- The classification has a type if and only if a function belongs to it, and files it as it
would by itself. -/
theorem find?_types_classify (type : Text) (functions : List NativeFunction) :
    Keyed.find? TypeMembers.typeName type (policy.classify functions).types =
      if ∃ d ∈ functions, d.typeName = type then some (policy.gather type functions)
      else none := by
  induction functions using List.reverseRecOn generalizing type with
  | nil => simp [classify, Keyed.find?]
  | append_singleton functions d ih =>
      rw [classify_append_singleton, types_add, getD_eq_gather (ih d.typeName),
        Keyed.find?_insert _ (policy.sorted_types_classify functions), gather_append_singleton,
        typeName_receive, typeName_gather]
      by_cases htype : d.typeName = type
      · simp [htype]
      · simp [htype, ih]

variable (policy) in
theorem getD_find?_types_classify (type : Text) (functions : List NativeFunction) :
    (Keyed.find? TypeMembers.typeName type (policy.classify functions).types).getD
      { typeName := type } = policy.gather type functions :=
  getD_eq_gather (policy.find?_types_classify type functions)

theorem mem_types_classify_iff {functions : List NativeFunction} {b : TypeMembers} :
    b ∈ (policy.classify functions).types ↔
      ∃ d ∈ functions, b = policy.gather d.typeName functions := by
  have hsorted := policy.sorted_types_classify functions
  constructor
  · intro hb
    have hfound := hsorted.find?_eq_some_of_mem hb
    rw [find?_types_classify] at hfound
    split at hfound
    next hex =>
      obtain ⟨d, hd, htype⟩ := hex
      exact ⟨d, hd, by rw [htype]; exact (Option.some.inj hfound).symm⟩
    next => exact absurd hfound (by simp)
  · rintro ⟨d, hd, rfl⟩
    have hfound := policy.find?_types_classify d.typeName functions
    rw [if_pos ⟨d, hd, rfl⟩] at hfound
    exact Keyed.mem_of_find?_eq_some hfound

theorem ordered_of_mem_types {functions : List NativeFunction} {b : TypeMembers}
    (h : b ∈ (policy.classify functions).types) : b.Ordered := by
  obtain ⟨d, -, rfl⟩ := mem_types_classify_iff.mp h
  exact policy.ordered_gather _ _

/-- Every member of every type is what its function becomes, filed under its own type. -/
theorem of_mem_members_of_mem_types {functions : List NativeFunction} {b : TypeMembers}
    (hb : b ∈ (policy.classify functions).types) {m : Member} (hm : m ∈ b.members) :
    m.function ∈ functions ∧ m.function.typeName = b.typeName ∧
      policy.member m.function = .ok m := by
  obtain ⟨d, -, rfl⟩ := mem_types_classify_iff.mp hb
  rw [typeName_gather]
  exact of_mem_gather hm

end MemberPolicy

end HeaderBindings
