import HeaderBindings.Proofs.Binding.BlockOrder

/-! # Attributes of one class

A name is looked up within one group of members only, so a group binds every attribute once. Two
groups of one class know nothing of each other, and both may bind the same attribute. -/

namespace HeaderBindings.Binding

open List

namespace Entry

/-- The attribute that an entry binds, with the group that binds it. -/
def binding? (e : Entry) : Option (EntryGroup × Text) := e.attribute?.map (e.group, ·)

theorem eq_of_binding?_eq_some {e : Entry} {binding : EntryGroup × Text}
    (h : e.binding? = some binding) : binding = (e.group, e.group.start ++ e.exposed) := by
  cases e <;> cases h <;> rfl

end Entry

/-- The attributes that a class binds, in the order of its entries, each with its group. -/
def ClassBody.bindings (body : ClassBody) : List (EntryGroup × Text) :=
  body.entries.filterMap Entry.binding?

/-! ## One group -/

theorem group_of_mem_filterMap {entries : List Entry} {g : EntryGroup}
    (hgroup : ∀ e ∈ entries, e.group = g) :
    ∀ binding ∈ entries.filterMap Entry.binding?, binding.1 = g := by
  intro binding hbinding
  obtain ⟨e, he, hsome⟩ := List.mem_filterMap.mp hbinding
  rw [Entry.eq_of_binding?_eq_some hsome]
  exact hgroup e he

theorem nodup_filterMap_binding? {entries : List Entry} (h : Ascend Entry.exposed entries) :
    (entries.filterMap Entry.binding?).Nodup := by
  refine List.Pairwise.filterMap _ ?_ h
  intro e e' hlt binding hbinding binding' hbinding' heq
  have he := Entry.eq_of_binding?_eq_some hbinding
  have he' := Entry.eq_of_binding?_eq_some hbinding'
  rw [he, he', Prod.mk.injEq] at heq
  obtain ⟨hgroup, hname⟩ := heq
  rw [hgroup] at hname
  rw [List.append_cancel_left hname] at hlt
  exact List.lt_irrefl _ hlt

variable (mapping : TypeMapping) (type : Text)

/-! ## One class -/

theorem nodup_append_of_fst {l l' : List (EntryGroup × Text)} {g : EntryGroup} (hl : l.Nodup)
    (hl' : l'.Nodup) (hg : ∀ a ∈ l, a.1 ≠ g) (hg' : ∀ a ∈ l', a.1 = g) : (l ++ l').Nodup := by
  refine List.nodup_append.mpr ⟨hl, hl', ?_⟩
  rintro a ha b hb rfl
  exact hg a ha (hg' a hb)

/-- What the groups bind holds no attribute of a group twice: each group binds for itself, and the
groups before it are others. -/
theorem nodup_flatten_entryGroups {b : TypeMembers} (h : b.Ordered) :
    ((entryGroups mapping type b).flatten.filterMap Entry.binding?).Nodup := by
  have hascending : (entryGroups mapping type b).Ascending Entry.exposed :=
    ascending_entryGroups h
  have hproperties := group_of_mem_filterMap (group_of_mem_filterMap_entryOfProperty? mapping type
    b.groups.properties)
  have hsetters := group_of_mem_filterMap (group_of_mem_filterMap_entryOf? mapping type
    .setter (fun _ _ => rfl) (plainSetters mapping type b))
  have hmethods := group_of_mem_filterMap (group_of_mem_filterMap_entryOf? mapping type
    .method (fun _ _ => rfl) b.methods)
  have hstatics := group_of_mem_filterMap (group_of_mem_filterMap_entryOf? mapping type
    .static (fun _ _ => rfl) b.statics)
  have hother : ∀ {l : List (EntryGroup × Text)} {g g' : EntryGroup},
      (∀ a ∈ l, a.1 = g) → g ≠ g' → ∀ a ∈ l, a.1 ≠ g' :=
    fun hl hne a ha => hl a ha ▸ hne
  simp only [Groups.flatten, List.filterMap_append]
  apply nodup_append_of_fst _ (nodup_filterMap_binding? hascending.statics) _ hstatics
  · apply nodup_append_of_fst _ (nodup_filterMap_binding? hascending.methods) _ hmethods
    · apply nodup_append_of_fst _ (nodup_filterMap_binding? hascending.setters) _ hsetters
      · exact nodup_filterMap_binding? hascending.properties
      · exact hother hproperties (by decide)
    · exact List.forall_mem_append.mpr
        ⟨hother hproperties (by decide), hother hsetters (by decide)⟩
  · exact List.forall_mem_append.mpr ⟨List.forall_mem_append.mpr
      ⟨hother hproperties (by decide), hother hsetters (by decide)⟩, hother hmethods (by decide)⟩

/-! ## All classes -/

/-- The attributes that are bound, each with the type and the group that binds it. -/
def NativeBindings.bindings (b : NativeBindings) : List (Text × EntryGroup × Text) :=
  b.classes.flatMap fun block => block.body.bindings.map (block.type, ·)

variable {mapping} {policy : MemberPolicy} {functions : List NativeFunction}

theorem nodup_bindings_of_mem_classes {block : ClassBlock}
    (h : block ∈ (nativeBindings mapping (policy.classify functions)).classes) :
    block.body.bindings.Nodup := by
  obtain ⟨init, -, hbody⟩ := exists_body_eq_of_mem_classes h
  have hinit : (init.toList.map Entry.constructor).filterMap Entry.binding? = [] := by
    cases init <;> rfl
  rw [ClassBody.bindings, hbody, List.filterMap_append, hinit, List.nil_append]
  exact nodup_flatten_entryGroups mapping block.type (policy.ordered_gather block.type functions)

/-- Every type has one class, no group of a class binds an attribute twice, and every entry is
written in the way of its group. -/
structure BoundOnce (table : TypeTable) (c : Classification) (bindings : NativeBindings) :
    Prop where
  count_type : ∀ type, (bindings.classes.map (·.type)).count type =
    if type ∈ table.names ∨ type ∈ c.types.map (·.typeName) then 1 else 0
  bindings_nodup : bindings.bindings.Nodup
  blocks_written : ∀ block ∈ bindings.classes, block.Written

theorem nodup_bindings (h : mapping.table.names.Nodup) :
    (nativeBindings mapping (policy.classify functions)).bindings.Nodup := by
  have htypes : ((nativeBindings mapping (policy.classify functions)).classes.map
      (·.type)).Nodup := by
    rw [map_type_classes]
    exact nodup_emissionOrder h
  refine List.nodup_flatMap.mpr ⟨?_, (List.pairwise_map.mp htypes).imp ?_⟩
  · intro block hblock
    exact (nodup_bindings_of_mem_classes hblock).map fun _ _ heq => (Prod.mk.inj heq).2
  · intro block block' hne binding hbinding hbinding'
    obtain ⟨_, -, rfl⟩ := List.mem_map.mp hbinding
    obtain ⟨_, -, heq⟩ := List.mem_map.mp hbinding'
    exact hne (Prod.mk.inj heq).1.symm

/-- With an accepted table every attribute of a group is bound once. -/
theorem boundOnce_of_ofEntries {entries : List LogicalType} {table : TypeTable}
    (h : TypeTable.ofEntries entries = .ok table) (plain : PlainTypes)
    (handWritten : HandWritten) (names : NameFilter) (functions : List NativeFunction) :
    let c := MemberPolicy.classify ⟨table, handWritten, names⟩ functions
    BoundOnce table c (nativeBindings ⟨table, plain⟩ c) := by
  intro c
  have hnodup : (⟨table, plain⟩ : TypeMapping).table.names.Nodup :=
    TypeTable.nodup_names_of_ofEntries h
  constructor
  case count_type =>
    intro type
    rw [map_type_classes, (nodup_emissionOrder hnodup).count]
    exact if_congr mem_emissionOrder rfl rfl
  case bindings_nodup => exact nodup_bindings hnodup
  case blocks_written => exact fun block _ => block.written

/-- The group is needed: all four groups of one class may bind the same attribute. -/
theorem boundOnce_set_x :
    let functions : List NativeFunction :=
      [⟨"PED", "int", "GET_PED_SET_X", [⟨"Ped", "ped"⟩], ⟨0, 9⟩⟩,
        ⟨"PED", "void", "SET_PED_X", [⟨"Ped", "ped"⟩, ⟨"int", "x"⟩], ⟨9, 19⟩⟩,
        ⟨"PED", "void", "SET_PED_X", [⟨"Ped", "ped"⟩, ⟨"int", "x"⟩, ⟨"int", "y"⟩], ⟨19, 29⟩⟩,
        ⟨"PED", "void", "SET_X", [⟨"int", "x"⟩], ⟨29, 39⟩⟩]
    let c := MemberPolicy.classify ⟨⟨stockTypes⟩, {}, {}⟩ functions
    let bindings := nativeBindings ⟨⟨stockTypes⟩, {}⟩ c
    TypeTable.ofEntries stockTypes = .ok ⟨stockTypes⟩ ∧
      bindings.bindings =
        ([("Ped", .properties, "set_x"), ("Ped", .setters, "set_x"), ("Ped", .methods, "set_x"),
          ("Ped", .statics, "set_x")] : List (Text × EntryGroup × Text)) ∧
      BoundOnce ⟨stockTypes⟩ c bindings :=
  have h : TypeTable.ofEntries stockTypes = .ok ⟨stockTypes⟩ := by decide +kernel
  ⟨h, by decide +kernel, boundOnce_of_ofEntries h {} {} {} _⟩

/-- Without the groups an attribute may be there twice: a property and a method share one. -/
theorem not_forall_nodup_attributes :
    ¬ ∀ (entries : List LogicalType) (table : TypeTable), TypeTable.ofEntries entries = .ok table →
      ∀ (plain : PlainTypes) (handWritten : HandWritten) (names : NameFilter)
        (functions : List NativeFunction),
        ∀ block ∈ (nativeBindings ⟨table, plain⟩
            (MemberPolicy.classify ⟨table, handWritten, names⟩ functions)).classes,
          (block.body.entries.filterMap Entry.attribute?).Nodup := by
  intro h
  have hped := h stockTypes ⟨stockTypes⟩ (by decide +kernel) {} {} {}
    [⟨"PED", "int", "GET_PED_HEALTH", [⟨"Ped", "ped"⟩], ⟨0, 9⟩⟩,
      ⟨"PED", "void", "HEALTH", [⟨"Ped", "ped"⟩], ⟨9, 19⟩⟩]
  revert hped
  decide +kernel

end HeaderBindings.Binding
