import HeaderBindings.Proofs.Binding.BlockOrder

/-! # Getters and setters of one name

What a class has for an exposed name is settled by the getter and the setter of that name alone.
Together they become one property; if only one of them can be wrapped, that one is bound and the
other is reported. -/

namespace HeaderBindings

open List

/-- The exposed name of a getter or a setter. -/
def Member.accessed? (m : Member) : Option Text :=
  match m.kind with
  | .getter | .setter => some m.exposed
  | .method | .static => none

namespace Binding

/-- The exposed name to which an entry gives access, as a property or as a plain setter. -/
def Entry.accessed? : Entry → Option Text
  | property name _ _ | readonly name _ | setter name _ => some name
  | constructor _ | method _ _ | static _ _ => none

/-- What a body has for the getter and the setter of an exposed name. -/
def ClassBody.about (name : Text) (body : ClassBody) : ClassBody where
  entries := body.entries.filter (·.accessed? = some name)
  failed := body.failed.filter (·.accessed? = some name)

section

variable {mapping : TypeMapping} {type : Text} {b : TypeMembers} {name : Text}

/-! ## Entries of one name -/

theorem accessed?_of_entryOfProperty?_eq_some {p : Property} {e : Entry}
    (h : entryOfProperty? mapping type p = some e) : e.accessed? = some p.name := by
  obtain ⟨getter, -, rfl⟩ := Option.map_eq_some_iff.mp h
  split <;> rfl

theorem accessed?_of_entryOf?_setter_eq_some {m : Member} {e : Entry}
    (h : entryOf? mapping type .setter m = some e) : e.accessed? = some m.exposed := by
  obtain ⟨call, -, rfl⟩ := Option.map_eq_some_iff.mp h
  rfl

theorem filter_accessed?_entryOf?_eq_nil {entry : Text → Lambda → Entry}
    (hentry : ∀ name call, (entry name call).accessed? = none) (members : List Member) :
    (members.filterMap (entryOf? mapping type entry)).filter (·.accessed? = some name) = [] := by
  rw [List.filter_eq_nil_iff]
  intro e he
  obtain ⟨m, -, hm⟩ := List.mem_filterMap.mp he
  obtain ⟨call, -, rfl⟩ := Option.map_eq_some_iff.mp hm
  simp [hentry]

/-! ## Failures of one name -/

theorem accessed?_of_mem_getters (h : b.Filed) {g : Member} (hg : g ∈ b.getters) :
    g.accessed? = some g.exposed := by
  rw [Member.accessed?, h.kind_eq .getter g hg]

theorem accessed?_of_mem_setters (h : b.Filed) {s : Member} (hs : s ∈ b.setters) :
    s.accessed? = some s.exposed := by
  rw [Member.accessed?, h.kind_eq .setter s hs]

theorem accessed?_of_failedMember?_eq_some (h : b.Filed) {p : Property}
    (hp : p ∈ b.groups.properties) {m : Member} (hm : failedMember? mapping type p = some m) :
    m.accessed? = some p.name := by
  rw [← exposed_of_failedMember?_eq_some hp hm]
  obtain ⟨g, hg, rfl⟩ := List.mem_map.mp hp
  rw [failedMember?] at hm
  split at hm
  next =>
    obtain ⟨hsetter, -⟩ := Option.filter_eq_some_iff.mp hm
    exact accessed?_of_mem_setters h (Keyed.mem_of_find?_eq_some hsetter)
  next =>
    cases hm
    exact accessed?_of_mem_getters h hg

theorem filter_accessed?_eq_nil {members : List Member} (h : ∀ m ∈ members, m.accessed? = none)
    (test : Member → Bool) :
    (members.filter test).filter (·.accessed? = some name) = [] := by
  rw [List.filter_eq_nil_iff]
  intro m hm
  simp [h m (List.mem_filter.mp hm).1]

/-! ## Members of one name -/

/-- The property of an exposed name. -/
def property? (b : TypeMembers) (name : Text) : Option Property :=
  (b.find? .getter name).map fun g => ⟨name, g, b.find? .setter name⟩

variable (mapping type) in
/-- The plain setter of an exposed name: its setter, unless a getter of the name can be bound. -/
def plainSetter? (b : TypeMembers) (name : Text) : Option Member :=
  (b.find? .setter name).filter fun _ =>
    ((b.find? .getter name).filter (canBind mapping type)).isNone

variable (b name) in
theorem find?_properties :
    Keyed.find? Property.name name b.groups.properties = property? b name := by
  rw [Keyed.find?, TypeMembers.groups, List.find?_map]
  change (b.find? .getter name).map _ = property? b name
  rw [property?]
  cases hg : b.find? .getter name with
  | none => rfl
  | some g =>
      have hkey : g.exposed = name := Keyed.key_of_find?_eq_some hg
      rw [Option.map_some, Option.map_some, hkey]

theorem find?_plainSetters (h : b.Ordered) :
    Keyed.find? Member.exposed name (plainSetters mapping type b) =
      plainSetter? mapping type b name := by
  refine Option.ext fun s => ?_
  have hsetter : b.find? .setter name = some s ↔ s ∈ b.setters ∧ s.exposed = name :=
    (h.sorted .setter).find?_eq_some_iff
  rw [(sorted_plainSetters h).find?_eq_some_iff, mem_plainSetters_iff h, plainSetter?,
    Option.filter_eq_some_iff, hsetter, Option.isNone_iff_eq_none]
  constructor
  · rintro ⟨⟨hs, hgetter⟩, rfl⟩
    exact ⟨⟨hs, rfl⟩, hgetter⟩
  · rintro ⟨⟨hs, rfl⟩, hgetter⟩
    exact ⟨⟨hs, hgetter⟩, rfl⟩

/-! ## One name of a class -/

/-- What a class has for a name comes from the property and the plain setter of the name. -/
theorem about_classBody (h : b.Filed) :
    (classBody mapping type b).about name =
      ⟨((property? b name).bind (entryOfProperty? mapping type)).toList ++
          ((plainSetter? mapping type b name).bind (entryOf? mapping type .setter)).toList,
        ((property? b name).bind (failedMember? mapping type)).toList ++
          ((plainSetter? mapping type b name).filter (! canBind mapping type ·)).toList⟩ := by
  have hproperties := sorted_properties h.toOrdered
  have hsetters : Keyed.Sorted Member.exposed (plainSetters mapping type b) :=
    sorted_plainSetters h.toOrdered
  rw [classBody_eq, ClassBody.about]
  congr 1
  · have hmethods : (b.methods.filterMap (entryOf? mapping type .method)).filter
        (·.accessed? = some name) = [] := filter_accessed?_entryOf?_eq_nil (fun _ _ => rfl) _
    have hstatics : (b.statics.filterMap (entryOf? mapping type .static)).filter
        (·.accessed? = some name) = [] := filter_accessed?_entryOf?_eq_nil (fun _ _ => rfl) _
    simp only [entryGroups, Groups.flatten, List.filter_append]
    rw [hmethods, hstatics, List.append_nil, List.append_nil,
      hproperties.filter_filterMap fun _ _ _ => accessed?_of_entryOfProperty?_eq_some,
      hsetters.filter_filterMap fun _ _ _ => accessed?_of_entryOf?_setter_eq_some,
      find?_properties, find?_plainSetters h.toOrdered]
  · have hmethods : ∀ m ∈ b.methods, m.accessed? = none := by
      intro m hm
      rw [Member.accessed?, h.kind_eq .method m hm]
    have hstatics : ∀ m ∈ b.statics, m.accessed? = none := by
      intro m hm
      rw [Member.accessed?, h.kind_eq .static m hm]
    have hplain : ∀ s ∈ plainSetters mapping type b, s.accessed? = some s.exposed := fun s hs =>
      accessed?_of_mem_setters h ((mem_plainSetters_iff h.toOrdered).mp hs).1
    simp only [failedGroups, Groups.flatten, List.filter_append]
    rw [filter_accessed?_eq_nil hmethods, filter_accessed?_eq_nil hstatics, List.append_nil,
      List.append_nil,
      hproperties.filter_filterMap fun _ hp _ => accessed?_of_failedMember?_eq_some h hp,
      hsetters.filter_filter hplain, find?_properties, find?_plainSetters h.toOrdered]

/-- A getter that can be bound makes a property and takes the setter of its name along. -/
theorem about_of_canBind (h : b.Filed) {g : Member} (hg : b.find? .getter name = some g)
    (hbind : canBind mapping type g = true) :
    (classBody mapping type b).about name =
      bindProperty mapping type ⟨name, g, b.find? .setter name⟩ := by
  have hproperty : property? b name = some ⟨name, g, b.find? .setter name⟩ := by
    rw [property?, hg, Option.map_some]
  have hplain : plainSetter? mapping type b name = none := by
    simp [plainSetter?, hg, hbind]
  rw [about_classBody h, hproperty, hplain, bindProperty_eq]
  simp

variable (mapping type b name) in
/-- The body of the setter of a name, as a plain one. -/
def setterBody : ClassBody := (b.find? .setter name).elim {} (bindMember mapping type .setter)

/-- Without a getter that can be bound the setter stands alone, behind the failure of the
getter. -/
theorem about_of_not_canBind (h : b.Filed)
    (hbind : (b.find? .getter name).filter (canBind mapping type) = none) :
    (classBody mapping type b).about name =
      ⟨(setterBody mapping type b name).entries,
        (b.find? .getter name).toList ++ (setterBody mapping type b name).failed⟩ := by
  have hplain : plainSetter? mapping type b name = b.find? .setter name := by
    rw [plainSetter?, hbind]
    cases b.find? .setter name <;> rfl
  have hsetter : setterBody mapping type b name =
      ⟨((b.find? .setter name).bind (entryOf? mapping type .setter)).toList,
        ((b.find? .setter name).filter (! canBind mapping type ·)).toList⟩ := by
    rw [setterBody]
    cases b.find? .setter name with
    | none => rfl
    | some s =>
        rw [Option.elim_some, bindMember_eq, Option.bind_some, List.filter_singleton,
          Option.filter_some]
        cases canBind mapping type s <;> rfl
  rw [about_classBody h, hplain, hsetter, property?]
  cases hg : b.find? .getter name with
  | none => rfl
  | some g =>
      have hfails : canBind mapping type g = false := by
        simpa [hg, Option.filter_some] using hbind
      have hentry : lambda? mapping type g = none := by simpa [canBind] using hfails
      simp [entryOfProperty?, failedMember?, hfails, hentry]

/-- For the getter and the setter of a name a body has the entries, with their codes, and it
reports the members. -/
structure ClassBody.Has (body : ClassBody) (name : Text) (entries : List Entry)
    (codes : List Text) (failed : List Member) : Prop where
  about_eq : body.about name = ⟨entries, failed⟩
  codes_eq : (body.about name).entries.map Entry.code = codes

variable (mapping type b name) in
/-- What a class has for an exposed name, by which of its getter and its setter there are and can
be wrapped. The lambdas call the natives of the two. -/
structure PairingExact (body : ClassBody) : Prop where
  calls {m : Member} {call : Lambda} (hcall : lambdaOf mapping type m = .ok call) :
    Calls m.function.qualifiedName call.code
  both {g s : Member} {getter setter : Lambda}
    (hg : b.find? .getter name = some g) (hs : b.find? .setter name = some s)
    (hgetter : lambdaOf mapping type g = .ok getter)
    (hsetter : lambdaOf mapping type s = .ok setter) :
    body.Has name [.property name getter setter]
      [".def_property(\"" ++ name ++ "\", " ++ getter.code ++ ", " ++ setter.code ++ ")"] []
  setter_fails {g s : Member} {getter : Lambda} {cause : MissingMapping}
    (hg : b.find? .getter name = some g) (hs : b.find? .setter name = some s)
    (hgetter : lambdaOf mapping type g = .ok getter)
    (hsetter : lambdaOf mapping type s = .error cause) :
    body.Has name [.readonly name getter]
      [".def_property_readonly(\"" ++ name ++ "\", " ++ getter.code ++ ")"] [s]
  getter_fails {g s : Member} {cause : MissingMapping} {setter : Lambda}
    (hg : b.find? .getter name = some g) (hs : b.find? .setter name = some s)
    (hgetter : lambdaOf mapping type g = .error cause)
    (hsetter : lambdaOf mapping type s = .ok setter) :
    body.Has name [.setter name setter]
      [".def(\"set_" ++ name ++ "\", " ++ setter.code ++ ")"] [g]
  both_fail {g s : Member} {cause cause' : MissingMapping}
    (hg : b.find? .getter name = some g) (hs : b.find? .setter name = some s)
    (hgetter : lambdaOf mapping type g = .error cause)
    (hsetter : lambdaOf mapping type s = .error cause') :
    body.Has name [] [] [g, s]
  getter_alone {g : Member} {getter : Lambda}
    (hg : b.find? .getter name = some g) (hs : b.find? .setter name = none)
    (hgetter : lambdaOf mapping type g = .ok getter) :
    body.Has name [.readonly name getter]
      [".def_property_readonly(\"" ++ name ++ "\", " ++ getter.code ++ ")"] []
  getter_alone_fails {g : Member} {cause : MissingMapping}
    (hg : b.find? .getter name = some g) (hs : b.find? .setter name = none)
    (hgetter : lambdaOf mapping type g = .error cause) :
    body.Has name [] [] [g]
  setter_alone {s : Member} {setter : Lambda}
    (hg : b.find? .getter name = none) (hs : b.find? .setter name = some s)
    (hsetter : lambdaOf mapping type s = .ok setter) :
    body.Has name [.setter name setter]
      [".def(\"set_" ++ name ++ "\", " ++ setter.code ++ ")"] []
  setter_alone_fails {s : Member} {cause : MissingMapping}
    (hg : b.find? .getter name = none) (hs : b.find? .setter name = some s)
    (hsetter : lambdaOf mapping type s = .error cause) :
    body.Has name [] [] [s]
  neither (hg : b.find? .getter name = none) (hs : b.find? .setter name = none) :
    body.Has name [] [] []

theorem ClassBody.has_of_about_eq {body : ClassBody} {entries : List Entry}
    {failed : List Member} (h : body.about name = ⟨entries, failed⟩) :
    body.Has name entries (entries.map Entry.code) failed :=
  ⟨h, by rw [h]⟩

/-- A body that has for a name what the class of the members has is paired exactly. -/
theorem pairingExact_of_about_eq (h : b.Filed) {body : ClassBody}
    (hbody : body.about name = (classBody mapping type b).about name) :
    PairingExact mapping type b name body := by
  have hbinds : ∀ {m call}, lambdaOf mapping type m = .ok call → canBind mapping type m = true :=
    fun hcall => canBind_eq_true_iff.mpr ⟨_, hcall⟩
  have hfails : ∀ {m cause}, lambdaOf mapping type m = .error cause →
      canBind mapping type m = false :=
    fun hcause => canBind_eq_false_iff.mpr ⟨_, hcause⟩
  constructor
  case calls =>
    intro m call hcall
    exact calls_of_lambda?_eq_some (lambda?_eq_some_iff.mpr hcall)
  case both =>
    intro g s getter setter hg hs hgetter hsetter
    apply ClassBody.has_of_about_eq
    rw [hbody, about_of_canBind h hg (hbinds hgetter), hs]
    simp [bindProperty, hgetter, hsetter]
  case setter_fails =>
    intro g s getter cause hg hs hgetter hsetter
    apply ClassBody.has_of_about_eq
    rw [hbody, about_of_canBind h hg (hbinds hgetter), hs]
    simp [bindProperty, hgetter, hsetter]
  case getter_fails =>
    intro g s cause setter hg hs hgetter hsetter
    have hname : s.exposed = name := Keyed.key_of_find?_eq_some hs
    apply ClassBody.has_of_about_eq
    rw [hbody, about_of_not_canBind h (by simp [hg, hfails hgetter]), setterBody, hg, hs]
    simp [bindMember, hsetter, hname]
  case both_fail =>
    intro g s cause cause' hg hs hgetter hsetter
    apply ClassBody.has_of_about_eq
    rw [hbody, about_of_not_canBind h (by simp [hg, hfails hgetter]), setterBody, hg, hs]
    simp [bindMember, hsetter]
  case getter_alone =>
    intro g getter hg hs hgetter
    apply ClassBody.has_of_about_eq
    rw [hbody, about_of_canBind h hg (hbinds hgetter), hs]
    simp [bindProperty, hgetter]
  case getter_alone_fails =>
    intro g cause hg hs hgetter
    apply ClassBody.has_of_about_eq
    rw [hbody, about_of_not_canBind h (by simp [hg, hfails hgetter]), setterBody, hg, hs]
    rfl
  case setter_alone =>
    intro s setter hg hs hsetter
    have hname : s.exposed = name := Keyed.key_of_find?_eq_some hs
    apply ClassBody.has_of_about_eq
    rw [hbody, about_of_not_canBind h (by simp [hg]), setterBody, hg, hs]
    simp [bindMember, hsetter, hname]
  case setter_alone_fails =>
    intro s cause hg hs hsetter
    apply ClassBody.has_of_about_eq
    rw [hbody, about_of_not_canBind h (by simp [hg]), setterBody, hg, hs]
    simp [bindMember, hsetter]
  case neither =>
    intro hg hs
    apply ClassBody.has_of_about_eq
    rw [hbody, about_of_not_canBind h (by simp [hg]), setterBody, hg, hs]
    rfl

/-! ## Blocks -/

theorem memberBody_of_mem {types : List TypeMembers}
    (hsorted : Keyed.Sorted TypeMembers.typeName types) (hb : b ∈ types) :
    memberBody mapping types b.typeName = classBody mapping b.typeName b := by
  have hfound : Keyed.find? TypeMembers.typeName b.typeName types = some b :=
    hsorted.find?_eq_some_iff.mpr ⟨hb, rfl⟩
  rw [memberBody, hfound]

theorem about_constructor_append (init : List Text) (body : ClassBody) :
    ({ entries := init.map .constructor } ++ body : ClassBody).about name = body.about name := by
  have hinit : (init.map Entry.constructor).filter (·.accessed? = some name) = [] := by
    simp [Entry.accessed?]
  have hentries : (init.map Entry.constructor ++ body.entries).filter (·.accessed? = some name) =
      body.entries.filter (·.accessed? = some name) := by
    rw [List.filter_append, hinit, List.nil_append]
  exact congrArg (ClassBody.mk · _) hentries

variable {c : Classification}

theorem exists_block_of_mem_types (hb : b ∈ c.types) :
    ∃ block ∈ (nativeBindings mapping c).classes, block.type = b.typeName := by
  have htype : b.typeName ∈ emissionOrder mapping c := mem_emissionOrder_of_mem_types hb
  rwa [← map_type_classes, List.mem_map] at htype

end

/-- Getters and setters are paired exactly, whichever members a type has come to have, and the
lines of the pairs stand in the registration code of every classification with the type. -/
theorem pairingExact_ofMembers (mapping : TypeMapping) (type : Text) (members : List Member)
    (name : Text) :
    let b := TypeMembers.ofMembers type members
    PairingExact mapping type b name (classBody mapping type b) ∧
      ∀ c : Classification, Keyed.Sorted TypeMembers.typeName c.types → b ∈ c.types →
        (∃ block ∈ (nativeBindings mapping c).classes, block.type = type) ∧
        ∀ block ∈ (nativeBindings mapping c).classes, block.type = type →
          PairingExact mapping type b name block.body ∧ block.Written ∧
          ∃ before after,
            (nativeCode mapping c).registrations = before ++ render block.lines ++ after := by
  intro b
  have h : b.Filed := TypeMembers.filed_ofMembers type members
  have htype : b.typeName = type := TypeMembers.typeName_ofMembers type members
  refine ⟨pairingExact_of_about_eq h rfl, ?_⟩
  intro c hsorted hb
  refine ⟨htype ▸ exists_block_of_mem_types hb, ?_⟩
  intro block hblock hblockType
  refine ⟨pairingExact_of_about_eq h ?_, block.written,
    NativeBindings.exists_registrationCode_eq hblock⟩
  obtain ⟨init, -, hbody⟩ := exists_body_eq_append_memberBody hblock
  have hmembers : memberBody mapping c.types b.typeName = classBody mapping b.typeName b :=
    memberBody_of_mem hsorted hb
  rw [htype] at hmembers
  rw [hbody, hblockType, hmembers, about_constructor_append]

/-- A setter whose getter returns a pointer without a mapping is bound alone. -/
theorem pairingExact_ofMembers_freed :
    let getter : NativeFunction := ⟨"PED", "Any*", "GET_PED_X", [⟨"Ped", "ped"⟩], ⟨0, 9⟩⟩
    let setter : NativeFunction :=
      ⟨"PED", "void", "SET_PED_X", [⟨"Ped", "ped"⟩, ⟨"int", "x"⟩], ⟨9, 19⟩⟩
    let g : Member := ⟨.getter, "x", getter⟩
    let s : Member := ⟨.setter, "x", setter⟩
    let b := TypeMembers.ofMembers "Ped" [s, g]
    let c : Classification := { types := [b] }
    let mapping : TypeMapping := ⟨⟨stockTypes⟩, {}⟩
    let call : Lambda := ⟨[⟨"Ped", true, "ped"⟩, ⟨"int", false, "x"⟩], "void", "PED::SET_PED_X"⟩
    let code : Text :=
      ".def(\"set_x\", [](Py_Ped ped,int x) -> void \x7b return PED::SET_PED_X(ped.id,x); \x7d)"
    Keyed.Sorted TypeMembers.typeName c.types ∧ b ∈ c.types ∧
      b.find? .getter "x" = some g ∧ b.find? .setter "x" = some s ∧
      lambdaOf mapping "Ped" g = .error (.result "Any*") ∧ lambdaOf mapping "Ped" s = .ok call ∧
      (classBody mapping "Ped" b).Has "x" [.setter "x" call] [code] [g] ∧
      ∃ block ∈ (nativeBindings mapping c).classes,
        block.body.Has "x" [.setter "x" call] [code] [g] ∧ ∃ before after,
          (nativeCode mapping c).registrations = before ++ render block.lines ++ after := by
  intro getter setter g s b c mapping call code
  obtain ⟨hbody, hblocks⟩ := pairingExact_ofMembers mapping "Ped" [s, g] "x"
  have hsorted : Keyed.Sorted TypeMembers.typeName c.types := List.pairwise_singleton _ _
  have hb : b ∈ c.types := List.mem_singleton_self b
  have hg : b.find? .getter "x" = some g := by decide +kernel
  have hs : b.find? .setter "x" = some s := by decide +kernel
  have hgetter : lambdaOf mapping "Ped" g = .error (.result "Any*") := by decide +kernel
  have hsetter : lambdaOf mapping "Ped" s = .ok call := by decide +kernel
  obtain ⟨⟨block, hblock, htype⟩, hexact⟩ := hblocks c hsorted hb
  obtain ⟨hpaired, -, hstands⟩ := hexact block hblock htype
  exact ⟨hsorted, hb, hg, hs, hgetter, hsetter, hbody.getter_fails hg hs hgetter hsetter,
    block, hblock, hpaired.getter_fails hg hs hgetter hsetter, hstands⟩

end Binding

end HeaderBindings
