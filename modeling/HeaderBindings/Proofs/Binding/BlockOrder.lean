import HeaderBindings.Proofs.Binding.Bindable
import HeaderBindings.Proofs.Binding.Blocks
import HeaderBindings.Proofs.Binding.EntryLines
import HeaderBindings.Proofs.ByteOrder

/-! # The order within a class

A class binds its members in four groups: properties, plain setters, methods, statics. Within each
group the exposed names ascend strictly, whichever members can be wrapped, and the members that
cannot be are reported in the order of the same four groups. -/

namespace HeaderBindings.Binding

open List

/-! ## Groups -/

/-- The names of a list ascend strictly, compared byte by byte. -/
def Ascend {α : Type} (name : α → Text) (l : List α) : Prop :=
  l.Pairwise fun a b => (name a).bytes < (name b).bytes

/-- What belongs to the members of a type, in the four groups in which they are bound. -/
structure Groups (α : Type) where
  properties : List α
  setters : List α
  methods : List α
  statics : List α

namespace Groups

variable {α : Type}

/-- The groups one after the other. -/
def flatten (g : Groups α) : List α := g.properties ++ g.setters ++ g.methods ++ g.statics

/-- The names of every group ascend. -/
structure Ascending (name : α → Text) (g : Groups α) : Prop where
  properties : Ascend name g.properties
  setters : Ascend name g.setters
  methods : Ascend name g.methods
  statics : Ascend name g.statics

/-- Every entry is written in the way of its group. -/
structure Written (g : Groups Entry) : Prop where
  properties : ∀ e ∈ g.properties, e.Written .properties
  setters : ∀ e ∈ g.setters, e.Written .setters
  methods : ∀ e ∈ g.methods, e.Written .methods
  statics : ∀ e ∈ g.statics, e.Written .statics

end Groups

theorem ascend_iff_sorted {α : Type} {name : α → Text} {l : List α} :
    Ascend name l ↔ Keyed.Sorted name l := by
  simp only [Ascend, Keyed.Sorted, Text.precedes_iff_bytes_lt]

/-- What each element of an ordered list yields under its own name is ordered too. -/
theorem ascend_filterMap {α β : Type} {key : α → Text} {name : β → Text} {f : α → Option β}
    {l : List α} (h : Keyed.Sorted key l) (hname : ∀ a b, f a = some b → name b = key a) :
    Ascend name (l.filterMap f) := by
  rw [ascend_iff_sorted]
  refine List.Pairwise.filterMap f ?_ h
  intro a a' hlt b hb b' hb'
  rw [hname a b hb, hname a' b' hb']
  exact hlt

/-! ## Entries and failures of a class -/

section

variable (mapping : TypeMapping) (type : Text)

/-- The entry of a member that can be bound. -/
def entryOf? (entry : Text → Lambda → Entry) (m : Member) : Option Entry :=
  (lambda? mapping type m).map (entry m.exposed)

/-- The entry of a property whose getter can be bound; without a setter that can be, it is
read-only. -/
def entryOfProperty? (p : Property) : Option Entry :=
  (lambda? mapping type p.getter).map fun getter =>
    match p.setter.bind (lambda? mapping type) with
    | some setter => .property p.name getter setter
    | none => .readonly p.name getter

/-- The member of a property that is reported: its getter or, if that can be bound, its setter. -/
def failedMember? (p : Property) : Option Member :=
  if canBind mapping type p.getter then p.setter.filter (! canBind mapping type ·)
  else some p.getter

/-- The entries of the members of a type. -/
def entryGroups (b : TypeMembers) : Groups Entry where
  properties := b.groups.properties.filterMap (entryOfProperty? mapping type)
  setters := (plainSetters mapping type b).filterMap (entryOf? mapping type .setter)
  methods := b.methods.filterMap (entryOf? mapping type .method)
  statics := b.statics.filterMap (entryOf? mapping type .static)

/-- The members of a type that cannot be bound. The one of a property stands at the property. -/
def failedGroups (b : TypeMembers) : Groups Member where
  properties := b.groups.properties.filterMap (failedMember? mapping type)
  setters := (plainSetters mapping type b).filter (! canBind mapping type ·)
  methods := b.methods.filter (! canBind mapping type ·)
  statics := b.statics.filter (! canBind mapping type ·)

/-! ## Groups of the entries -/

theorem group_of_mem_filterMap_entryOf? (entry : Text → Lambda → Entry) {g : EntryGroup}
    (hentry : ∀ name call, (entry name call).group = g) (members : List Member) :
    ∀ e ∈ members.filterMap (entryOf? mapping type entry), e.group = g := by
  intro e he
  obtain ⟨m, -, hm⟩ := List.mem_filterMap.mp he
  obtain ⟨call, -, rfl⟩ := Option.map_eq_some_iff.mp hm
  exact hentry m.exposed call

theorem group_of_mem_filterMap_entryOfProperty? (properties : List Property) :
    ∀ e ∈ properties.filterMap (entryOfProperty? mapping type), e.group = .properties := by
  intro e he
  obtain ⟨p, -, hp⟩ := List.mem_filterMap.mp he
  obtain ⟨getter, -, rfl⟩ := Option.map_eq_some_iff.mp hp
  split <;> rfl

theorem Entry.Written.of_group {entries : List Entry} {g : EntryGroup}
    (h : ∀ e ∈ entries, e.group = g) : ∀ e ∈ entries, e.Written g :=
  fun e he => h e he ▸ e.written

theorem written_entryGroups (b : TypeMembers) : (entryGroups mapping type b).Written where
  properties := .of_group (group_of_mem_filterMap_entryOfProperty? mapping type _)
  setters := .of_group (group_of_mem_filterMap_entryOf? mapping type .setter (fun _ _ => rfl) _)
  methods := .of_group (group_of_mem_filterMap_entryOf? mapping type .method (fun _ _ => rfl) _)
  statics := .of_group (group_of_mem_filterMap_entryOf? mapping type .static (fun _ _ => rfl) _)

variable {mapping type}

theorem bindMember_eq (entry : Text → Lambda → Entry) (m : Member) :
    bindMember mapping type entry m =
      ⟨(entryOf? mapping type entry m).toList, [m].filter (! canBind mapping type ·)⟩ := by
  rw [bindMember, entryOf?, List.filter_singleton, canBind, lambda?]
  cases lambdaOf mapping type m <;> rfl

theorem bindProperty_eq (p : Property) :
    bindProperty mapping type p =
      ⟨(entryOfProperty? mapping type p).toList, (failedMember? mapping type p).toList⟩ := by
  cases hgetter : lambdaOf mapping type p.getter with
  | error _ => simp [bindProperty, entryOfProperty?, failedMember?, canBind, lambda?, hgetter,
      Except.toOption]
  | ok getter =>
      cases hsetter : p.setter with
      | none => simp [bindProperty, entryOfProperty?, failedMember?, canBind, lambda?, hgetter,
          hsetter, Except.toOption]
      | some s =>
          cases hs : lambdaOf mapping type s <;>
            simp [bindProperty, entryOfProperty?, failedMember?, canBind, lambda?, hgetter, hsetter,
              hs, Option.filter_some, Except.toOption]

theorem concat_map_bindMember (entry : Text → Lambda → Entry) (members : List Member) :
    ClassBody.concat (members.map (bindMember mapping type entry)) =
      ⟨members.filterMap (entryOf? mapping type entry),
        members.filter (! canBind mapping type ·)⟩ := by
  rw [ClassBody.concat, List.flatMap_map, List.flatMap_map, List.filterMap_eq_flatMap_toList]
  simp only [bindMember_eq]
  rw [← List.filter_flatMap, List.flatMap_singleton']

theorem concat_map_bindProperty (properties : List Property) :
    ClassBody.concat (properties.map (bindProperty mapping type)) =
      ⟨properties.filterMap (entryOfProperty? mapping type),
        properties.filterMap (failedMember? mapping type)⟩ := by
  rw [ClassBody.concat, List.flatMap_map, List.flatMap_map, List.filterMap_eq_flatMap_toList,
    List.filterMap_eq_flatMap_toList]
  simp only [bindProperty_eq]

variable (mapping type) in
/-- A class binds and reports its members group by group. -/
theorem classBody_eq (b : TypeMembers) :
    classBody mapping type b =
      ⟨(entryGroups mapping type b).flatten, (failedGroups mapping type b).flatten⟩ := by
  simp only [classBody, concat_map_bindMember, concat_map_bindProperty]
  rfl

/-! ## Names within the groups -/

theorem exposed_of_entryOfProperty?_eq_some {p : Property} {e : Entry}
    (h : entryOfProperty? mapping type p = some e) : e.exposed = p.name := by
  obtain ⟨getter, -, rfl⟩ := Option.map_eq_some_iff.mp h
  split <;> rfl

theorem exposed_of_failedMember?_eq_some {b : TypeMembers} {p : Property}
    (hp : p ∈ b.groups.properties) {m : Member} (h : failedMember? mapping type p = some m) :
    m.exposed = p.name := by
  obtain ⟨g, hg, rfl⟩ := List.mem_map.mp hp
  rw [failedMember?] at h
  split at h
  · obtain ⟨hsetter, -⟩ := Option.filter_eq_some_iff.mp h
    exact Keyed.key_of_find?_eq_some hsetter
  · cases h
    rfl

theorem sorted_properties {b : TypeMembers} (h : b.Ordered) :
    Keyed.Sorted Property.name b.groups.properties :=
  List.pairwise_map.mpr (h.sorted .getter)

/-- The names of the entries ascend in every group, whichever setters lost their getter. -/
theorem ascending_entryGroups {b : TypeMembers} (h : b.Ordered) :
    (entryGroups mapping type b).Ascending Entry.exposed := by
  have hentry : ∀ (entry : Text → Lambda → Entry),
      (∀ name call, (entry name call).exposed = name) → ∀ m e,
        entryOf? mapping type entry m = some e → e.exposed = m.exposed := by
    intro entry hexposed m e he
    obtain ⟨call, -, rfl⟩ := Option.map_eq_some_iff.mp he
    exact hexposed m.exposed call
  constructor
  case properties =>
    exact ascend_filterMap (sorted_properties h) fun p e => exposed_of_entryOfProperty?_eq_some
  case setters => exact ascend_filterMap (sorted_plainSetters h) (hentry _ fun _ _ => rfl)
  case methods => exact ascend_filterMap (h.sorted .method) (hentry _ fun _ _ => rfl)
  case statics => exact ascend_filterMap (h.sorted .static) (hentry _ fun _ _ => rfl)

theorem ascending_failedGroups {b : TypeMembers} (h : b.Ordered) :
    (failedGroups mapping type b).Ascending Member.exposed := by
  constructor
  case properties =>
    refine ascend_iff_sorted.mpr (List.Pairwise.filterMap _ ?_ (List.Pairwise.and_mem.mp
      (sorted_properties h)))
    rintro p p' ⟨hp, hp', hlt⟩ m hm m' hm'
    rw [exposed_of_failedMember?_eq_some hp hm, exposed_of_failedMember?_eq_some hp' hm']
    exact hlt
  case setters => exact ascend_iff_sorted.mpr (List.Pairwise.filter _ (sorted_plainSetters h))
  case methods => exact ascend_iff_sorted.mpr (List.Pairwise.filter _ (h.sorted .method))
  case statics => exact ascend_iff_sorted.mpr (List.Pairwise.filter _ (h.sorted .static))

end

/-! ## Blocks -/

/-- A block registers its entries in strict order: the constructor of a registered type, then the
four groups of its members, and it reports the others in the same order. No setter is lost where
those without a getter and those that lost theirs become one group. -/
structure StrictlyOrdered (mapping : TypeMapping) (b : TypeMembers) (block : ClassBlock) :
    Prop where
  lines : ∃ init : Option Text,
    (∀ t ∈ init, ∃ e ∈ mapping.table.entries, e.name = block.type ∧ e.init = some t) ∧
    block.lines = block.declarationLines ++ [⟨1, ClassBlock.handle block.type⟩] ++
      init.toList.map (fun t => ⟨2, ".def(py::init<" ++ t ++ ">())"⟩) ++
      (entryGroups mapping block.type b).flatten.map (fun e => ⟨2, e.code⟩) ++
      [⟨1, ";"⟩, ⟨1, "custom(" ++ ClassBlock.handle block.type ++ ");"⟩]
  written : (entryGroups mapping block.type b).Written
  ascending : (entryGroups mapping block.type b).Ascending Entry.exposed
  setters : plainSetters mapping block.type b ~
    freedSetters mapping block.type b ++ b.groups.setters
  failed : block.body.failed = (failedGroups mapping block.type b).flatten
  failed_ascending : (failedGroups mapping block.type b).Ascending Member.exposed

variable {mapping : TypeMapping} {policy : MemberPolicy} {functions : List NativeFunction}

/-- The body of a class: a constructor if the type is registered with one, then what is bound for
the members of the type. -/
theorem exists_body_eq_append_memberBody {c : Classification} {block : ClassBlock}
    (h : block ∈ (nativeBindings mapping c).classes) :
    ∃ init : Option Text,
      (∀ t ∈ init, ∃ e ∈ mapping.table.entries, e.name = block.type ∧ e.init = some t) ∧
      block.body =
        { entries := init.toList.map .constructor } ++ memberBody mapping c.types block.type := by
  rcases List.mem_append.mp h with h | h
  · obtain ⟨e, he, rfl⟩ := List.mem_map.mp h
    exact ⟨e.init, fun t ht => ⟨e, he, rfl, ht⟩, rfl⟩
  · obtain ⟨type, -, rfl⟩ := List.mem_map.mp h
    exact ⟨none, fun t ht => absurd ht (by simp), rfl⟩

theorem exists_body_eq_of_mem_classes {block : ClassBlock}
    (h : block ∈ (nativeBindings mapping (policy.classify functions)).classes) :
    ∃ init : Option Text,
      (∀ t ∈ init, ∃ e ∈ mapping.table.entries, e.name = block.type ∧ e.init = some t) ∧
      block.body =
        ⟨init.toList.map .constructor ++
            (entryGroups mapping block.type (policy.gather block.type functions)).flatten,
          (failedGroups mapping block.type (policy.gather block.type functions)).flatten⟩ := by
  obtain ⟨init, hinit, hbody⟩ := exists_body_eq_append_memberBody h
  refine ⟨init, hinit, ?_⟩
  rw [hbody, memberBody_classify, classBody_eq]
  rfl

/-- Every block of a classification is in strict order. -/
theorem strictlyOrdered_of_mem_classes {block : ClassBlock}
    (h : block ∈ (nativeBindings mapping (policy.classify functions)).classes) :
    StrictlyOrdered mapping (policy.gather block.type functions) block := by
  have hordered : (policy.gather block.type functions).Ordered := policy.ordered_gather _ _
  obtain ⟨init, hinit, hbody⟩ := exists_body_eq_of_mem_classes h
  constructor
  case lines =>
    refine ⟨init, hinit, ?_⟩
    rw [ClassBlock.lines, hbody, List.map_append, List.map_map, ← List.append_assoc]
    rfl
  case written => exact written_entryGroups mapping block.type _
  case ascending => exact ascending_entryGroups hordered
  case setters => exact plainSetters_perm hordered
  case failed => rw [hbody]
  case failed_ascending => exact ascending_failedGroups hordered

/-- A setter that lost its getter stands between two that never had one. -/
theorem strictlyOrdered_freedSetter :
    let functions : List NativeFunction :=
      [⟨"PED", "void", "SET_PED_COMBAT", [⟨"Ped", "ped"⟩, ⟨"int", "combat"⟩], ⟨0, 9⟩⟩,
        ⟨"PED", "void", "SET_PED_BONE", [⟨"Ped", "ped"⟩, ⟨"int", "bone"⟩], ⟨9, 19⟩⟩,
        ⟨"PED", "Vector3*", "GET_PED_BONE", [⟨"Ped", "ped"⟩], ⟨19, 29⟩⟩,
        ⟨"PED", "void", "SET_PED_ARMOUR", [⟨"Ped", "ped"⟩, ⟨"int", "armour"⟩], ⟨29, 39⟩⟩]
    let policy : MemberPolicy := ⟨⟨stockTypes⟩, {}, {}⟩
    let mapping : TypeMapping := ⟨⟨stockTypes⟩, {}⟩
    let block := registeredClass mapping (policy.classify functions).types
      { name := "Ped", storage := "int", parent := some "Entity" }
    block ∈ (nativeBindings mapping (policy.classify functions)).classes ∧
      block.body.entries.map Entry.exposed = ["armour", "bone", "combat"] ∧
      StrictlyOrdered mapping (policy.gather block.type functions) block :=
  have h : registeredClass ⟨⟨stockTypes⟩, {}⟩ _ _ ∈
      (nativeBindings ⟨⟨stockTypes⟩, {}⟩
        (MemberPolicy.classify ⟨⟨stockTypes⟩, {}, {}⟩ _)).classes := by decide +kernel
  ⟨h, by decide +kernel, strictlyOrdered_of_mem_classes h⟩

end HeaderBindings.Binding
