import HeaderBindings.Proofs.Keyed
import HeaderBindings.TypeMembers
import Mathlib.Data.List.Induction
import Mathlib.Data.List.Perm.Basic

/-! # Members of one type

A type holds one member for each kind and exposed name: an insertion trades the member of that
place for the new one, and what is found at every place determines the type. However members are
inserted, each stands under its own kind. The groups hold the same members as the type. -/

namespace HeaderBindings.TypeMembers

open List

/-! ## Places -/

@[simp] theorem typeName_insert (m : Member) (b : TypeMembers) :
    (b.insert m).typeName = b.typeName := by
  cases hm : m.kind <;> simp [TypeMembers.insert, withKind, hm]

theorem ordered_empty (type : Text) : Ordered { typeName := type } where
  sorted kind := by cases kind <;> exact List.Pairwise.nil

@[simp] theorem find?_empty (type : Text) (kind : MemberKind) (exposed : Text) :
    find? { typeName := type } kind exposed = none := by
  cases kind <;> rfl

theorem mem_members_iff {b : TypeMembers} {m : Member} :
    m ∈ b.members ↔ ∃ kind, m ∈ b.ofKind kind := by
  constructor
  · intro h
    simp only [members, List.mem_append] at h
    rcases h with ((h | h) | h) | h
    · exact ⟨.getter, h⟩
    · exact ⟨.setter, h⟩
    · exact ⟨.method, h⟩
    · exact ⟨.static, h⟩
  · rintro ⟨kind, h⟩
    cases kind <;> simp_all [members, ofKind]

theorem mem_members_of_mem_insert {b : TypeMembers} {m n : Member}
    (h : n ∈ (b.insert m).members) : n = m ∨ n ∈ b.members := by
  obtain ⟨kind, h⟩ := mem_members_iff.mp h
  rw [ofKind_insert] at h
  split at h
  · exact (Keyed.mem_insert h).imp id fun h => mem_members_iff.mpr ⟨kind, h⟩
  · exact .inr (mem_members_iff.mpr ⟨kind, h⟩)

theorem ext_ofKind {b c : TypeMembers} (hname : b.typeName = c.typeName)
    (h : ∀ kind, b.ofKind kind = c.ofKind kind) : b = c := by
  cases b
  cases c
  have hgetters := h .getter
  have hsetters := h .setter
  have hmethods := h .method
  have hstatics := h .static
  simp_all [ofKind]

/-- What is found at every place determines the members of a type. -/
theorem Ordered.eq_of_find?_eq {b c : TypeMembers} (hb : b.Ordered) (hc : c.Ordered)
    (hname : b.typeName = c.typeName)
    (h : ∀ kind exposed, b.find? kind exposed = c.find? kind exposed) : b = c := by
  refine ext_ofKind hname ?_
  intro kind
  exact Keyed.eq_of_find?_eq (hb.sorted kind) (hc.sorted kind) (h kind)

/-- An insertion trades the member at the place, if there is one, for the new member. -/
theorem Ordered.members_insert_perm {b : TypeMembers} (h : b.Ordered) (m : Member) :
    (b.find? m.kind m.exposed).toList ++ (b.insert m).members ~ m :: b.members := by
  have hkind := List.perm_iff_count.mp ((h.sorted m.kind).insert_perm m)
  refine List.perm_iff_count.mpr ?_
  intro n
  specialize hkind n
  cases hm : m.kind <;>
    simp only [find?, TypeMembers.insert, withKind, ofKind, members, hm, List.count_append,
      List.count_cons] at hkind ⊢ <;>
    omega

/-! ## Insertions -/

/-- Each member stands under its own kind, and each kind ascends by exposed name. -/
structure Filed (b : TypeMembers) : Prop extends Ordered b where
  kind_eq : ∀ kind, ∀ m ∈ b.ofKind kind, m.kind = kind

theorem filed_empty (type : Text) : Filed { typeName := type } where
  toOrdered := ordered_empty type
  kind_eq kind := by cases kind <;> exact fun _ hm => absurd hm List.not_mem_nil

theorem Filed.insert {b : TypeMembers} (h : b.Filed) (m : Member) : (b.insert m).Filed where
  toOrdered := h.toOrdered.insert m
  kind_eq kind n hn := by
    rw [ofKind_insert] at hn
    split at hn
    next hkind =>
      rcases Keyed.mem_insert hn with rfl | hn
      · exact hkind
      · exact h.kind_eq kind n hn
    next => exact h.kind_eq kind n hn

theorem Filed.find?_eq_some_of_mem {b : TypeMembers} (h : b.Filed) {kind : MemberKind} {m : Member}
    (hm : m ∈ b.ofKind kind) : b.find? m.kind m.exposed = some m := by
  rw [find?, h.kind_eq kind m hm]
  exact (h.sorted kind).find?_eq_some_of_mem hm

/-- The type that results from the insertion of members, one after the other. -/
def ofMembers (type : Text) (members : List Member) : TypeMembers :=
  members.foldl (fun b m => b.insert m) { typeName := type }

theorem ofMembers_append_singleton (type : Text) (members : List Member) (m : Member) :
    ofMembers type (members ++ [m]) = (ofMembers type members).insert m := by
  rw [ofMembers, List.foldl_append]
  rfl

theorem filed_ofMembers (type : Text) (members : List Member) : (ofMembers type members).Filed := by
  induction members using List.reverseRecOn with
  | nil => exact filed_empty type
  | append_singleton members m ih =>
      rw [ofMembers_append_singleton]
      exact ih.insert m

@[simp] theorem typeName_ofMembers (type : Text) (members : List Member) :
    (ofMembers type members).typeName = type := by
  induction members using List.reverseRecOn with
  | nil => rfl
  | append_singleton members m ih => rw [ofMembers_append_singleton, typeName_insert, ih]

theorem mem_of_mem_members_ofMembers {type : Text} {members : List Member} {m : Member}
    (h : m ∈ (ofMembers type members).members) : m ∈ members := by
  induction members using List.reverseRecOn with
  | nil => exact h
  | append_singleton members n ih =>
      rw [ofMembers_append_singleton] at h
      rcases mem_members_of_mem_insert h with rfl | h
      · exact List.mem_append_right _ List.mem_cons_self
      · exact List.mem_append_left _ (ih h)

/-! ## Some of the members -/

/-- The members that pass a test. -/
def filter (test : Member → Bool) (b : TypeMembers) : TypeMembers where
  typeName := b.typeName
  getters := b.getters.filter test
  setters := b.setters.filter test
  methods := b.methods.filter test
  statics := b.statics.filter test

theorem ofKind_filter (test : Member → Bool) (b : TypeMembers) (kind : MemberKind) :
    (b.filter test).ofKind kind = (b.ofKind kind).filter test := by
  cases kind <;> rfl

theorem Ordered.filter {b : TypeMembers} (h : b.Ordered) (test : Member → Bool) :
    (b.filter test).Ordered where
  sorted kind := by
    rw [ofKind_filter]
    exact List.Pairwise.filter _ (h.sorted kind)

theorem Ordered.find?_filter {b : TypeMembers} (h : b.Ordered) (test : Member → Bool)
    (kind : MemberKind) (exposed : Text) :
    (b.filter test).find? kind exposed = (b.find? kind exposed).filter test := by
  rw [find?, ofKind_filter]
  exact (h.sorted kind).find?_filter test exposed

/-! ## Groups -/

/-- The setters that join a property. -/
def pairedSetters (b : TypeMembers) : List Member :=
  b.groups.properties.filterMap (·.setter)

theorem mem_pairedSetters_iff {b : TypeMembers} (h : b.Ordered) {s : Member} :
    s ∈ b.pairedSetters ↔ s ∈ b.setters ∧ (b.find? .getter s.exposed).isSome := by
  simp only [pairedSetters, groups, List.mem_filterMap, List.mem_map]
  constructor
  · rintro ⟨p, ⟨g, hg, rfl⟩, hs⟩
    obtain ⟨hmem, hkey⟩ := (h.sorted .setter).find?_eq_some_iff.mp hs
    refine ⟨hmem, ?_⟩
    rw [hkey, find?, (h.sorted .getter).find?_eq_some_of_mem hg]
    rfl
  · rintro ⟨hs, hgetter⟩
    obtain ⟨g, hg⟩ := Option.isSome_iff_exists.mp hgetter
    obtain ⟨hmem, hkey⟩ := (h.sorted .getter).find?_eq_some_iff.mp hg
    refine ⟨_, ⟨g, hmem, rfl⟩, ?_⟩
    rw [hkey]
    exact (h.sorted .setter).find?_eq_some_of_mem hs

theorem pairedSetters_sorted {b : TypeMembers} (h : b.Ordered) :
    Keyed.Sorted Member.exposed b.pairedSetters := by
  rw [pairedSetters, groups, List.filterMap_map]
  refine List.Pairwise.filterMap _ ?_ (h.sorted .getter)
  intro g g' hlt s hs s' hs'
  have hkey : s.exposed = g.exposed := Keyed.key_of_find?_eq_some hs
  have hkey' : s'.exposed = g'.exposed := Keyed.key_of_find?_eq_some hs'
  rw [hkey, hkey']
  exact hlt

/-- Every setter is paired or stands alone. -/
theorem pairedSetters_append_perm {b : TypeMembers} (h : b.Ordered) :
    b.pairedSetters ++ b.groups.setters ~ b.setters := by
  have hpaired : b.pairedSetters ~
      b.setters.filter fun s => (b.find? .getter s.exposed).isSome := by
    refine (List.perm_ext_iff_of_nodup (pairedSetters_sorted h).nodup ?_).mpr ?_
    · exact (h.sorted .setter).nodup.filter _
    · intro s
      rw [mem_pairedSetters_iff h, List.mem_filter]
  have halone : b.groups.setters =
      b.setters.filter fun s => !(b.find? .getter s.exposed).isSome := by
    simp [groups]
  rw [halone]
  exact (hpaired.append_right _).trans (List.filter_append_perm _ _)

/-- A paired setter has another name than every setter that stands alone. -/
theorem exposed_ne_of_mem_pairedSetters {b : TypeMembers} (h : b.Ordered) {s t : Member}
    (hs : s ∈ b.pairedSetters) (ht : t ∈ b.groups.setters) : t.exposed ≠ s.exposed := by
  intro heq
  have hsome := ((mem_pairedSetters_iff h).mp hs).2
  have hnone := (List.mem_filter.mp ht).2
  rw [heq] at hnone
  simp_all

end HeaderBindings.TypeMembers
