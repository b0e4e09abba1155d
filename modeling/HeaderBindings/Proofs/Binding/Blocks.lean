import HeaderBindings.Proofs.Binding.Emission
import HeaderBindings.Proofs.Classification.Places

/-! # Blocks of registration code

The registration code opens with what all types share and goes on with one block of lines for
every type, in the order of the classes. A block comes from the entry of the type in the table
and from what its own members are bound to. -/

namespace HeaderBindings.Binding

open List

/-! ## Lines -/

/-- What stands before the first class: the inclusions, the hooks of all types and the head of
the function that registers everything. -/
def openingLines (hooks : List Text) : List Line :=
  [banner, ⟨0, "#include \"pybind11/pybind11.h\""⟩, ⟨0, "#include \"scripthook/natives.h\""⟩,
    ⟨0, "#include \"natives_type.h\""⟩, ⟨0, "namespace py = pybind11;"⟩, ⟨0, ""⟩] ++
  hooks.map hookLine ++
  [⟨0, ""⟩, ⟨0, "void defNatives(py::module m) \x7b"⟩, ⟨1, vectorBinding⟩]

/-- The line behind the last class. -/
def closingLine : Line := ⟨0, "\x7d"⟩

namespace NativeBindings

/-- The lines of the registration code. -/
def codeLines (b : NativeBindings) : List Line :=
  openingLines b.hooks ++ b.classes.flatMap ClassBlock.lines ++ [closingLine]

/-- The lines that register the class of a type. -/
def blockLines (b : NativeBindings) (type : Text) : List Line :=
  (b.classes.filter (·.type = type)).flatMap ClassBlock.lines

theorem registrationCode_eq_render (b : NativeBindings) :
    registrationCode b = render b.codeLines := by
  simp only [registrationCode, codeLines, openingLines, closingLine, List.append_assoc]

/-- The registration code, class by class. -/
theorem registrationCode_eq_append (b : NativeBindings) :
    registrationCode b = render (openingLines b.hooks) ++
      b.classes.flatMap (fun block => render block.lines) ++ "\x7d\n" := by
  have hclasses : render (b.classes.flatMap ClassBlock.lines) =
      b.classes.flatMap fun block => render block.lines := List.flatMap_assoc
  have hclosing : render [closingLine] = "\x7d\n" := rfl
  rw [registrationCode_eq_render, codeLines, render_append, render_append, hclasses, hclosing]

/-- The lines of a class stand in the registration code, one behind the other. -/
theorem exists_registrationCode_eq {b : NativeBindings} {block : ClassBlock}
    (h : block ∈ b.classes) :
    ∃ before after, registrationCode b = before ++ render block.lines ++ after := by
  obtain ⟨front, back, hclasses⟩ := List.append_of_mem h
  refine ⟨render (openingLines b.hooks) ++ front.flatMap (fun block => render block.lines),
    back.flatMap (fun block => render block.lines) ++ "\x7d\n", ?_⟩
  simp only [registrationCode_eq_append, hclasses, List.flatMap_append, List.flatMap_cons,
    List.append_assoc]

/-- Where every type has one class, the blocks of the types are all lines of the classes. -/
theorem flatMap_blockLines {b : NativeBindings} (h : (b.classes.map (·.type)).Nodup) :
    (b.classes.map (·.type)).flatMap b.blockLines = b.classes.flatMap ClassBlock.lines := by
  have hsingle : ∀ block ∈ b.classes, b.classes.filter (·.type = block.type) = [block] := by
    intro block hblock
    obtain ⟨front, back, hclasses⟩ := List.append_of_mem hblock
    rw [hclasses, List.map_append, List.map_cons, List.nodup_middle, List.nodup_cons,
      ← List.map_append, List.mem_map] at h
    have hother : ∀ other ∈ front ++ back, ¬ other.type = block.type :=
      fun other hmem heq => h.1 ⟨other, hmem, heq⟩
    obtain ⟨hfront, hback⟩ := List.forall_mem_append.mp hother
    rw [hclasses, List.filter_append, List.filter_eq_nil_iff.mpr (by simpa using hfront),
      List.filter_cons_of_pos (by simp), List.filter_eq_nil_iff.mpr (by simpa using hback)]
    rfl
  rw [List.flatMap_map]
  refine List.flatMap_congr ?_
  intro block hblock
  rw [blockLines, hsingle block hblock, List.flatMap_singleton]

end NativeBindings

/-! ## Blocks of a classification -/

variable {mapping : TypeMapping} {c c' : Classification}

theorem map_type_classes (mapping : TypeMapping) (c : Classification) :
    (nativeBindings mapping c).classes.map (·.type) = emissionOrder mapping c := by
  simp only [nativeBindings, emissionOrder, TypeTable.names, List.map_append, List.map_map]
  congr 1
  exact List.map_id _

/-- The registration code, block by block. -/
theorem codeLines_nativeBindings (h : mapping.table.names.Nodup) :
    (nativeBindings mapping c).codeLines =
      openingLines (nativeBindings mapping c).hooks ++
        (emissionOrder mapping c).flatMap (nativeBindings mapping c).blockLines ++
        [closingLine] := by
  have hnodup : ((nativeBindings mapping c).classes.map (·.type)).Nodup := by
    rw [map_type_classes]
    exact nodup_emissionOrder h
  rw [NativeBindings.codeLines, ← NativeBindings.flatMap_blockLines hnodup, map_type_classes]

theorem lines_registeredClass_congr {e : LogicalType} {types types' : List TypeMembers}
    (h : (memberBody mapping types e.name).entries = (memberBody mapping types' e.name).entries) :
    (registeredClass mapping types e).lines = (registeredClass mapping types' e).lines := by
  have hbody : (registeredClass mapping types e).body.entries =
      (registeredClass mapping types' e).body.entries :=
    congrArg (e.init.toList.map Entry.constructor ++ ·) h
  rw [ClassBlock.lines, ClassBlock.lines, hbody]
  rfl

theorem lines_namespaceClass_congr {type : Text} {types types' : List TypeMembers}
    (h : (memberBody mapping types type).entries = (memberBody mapping types' type).entries) :
    (namespaceClass mapping types type).lines = (namespaceClass mapping types' type).lines := by
  have hbody : (namespaceClass mapping types type).body.entries =
      (namespaceClass mapping types' type).body.entries := h
  rw [ClassBlock.lines, ClassBlock.lines, hbody]
  rfl

theorem blockLines_nativeBindings (type : Text) :
    (nativeBindings mapping c).blockLines type =
      (mapping.table.entries.filter (·.name = type)).flatMap
          (fun e => (registeredClass mapping c.types e).lines) ++
        ((namespaceTypes mapping c).filter (· = type)).flatMap
          (fun t => (namespaceClass mapping c.types t).lines) := by
  rw [NativeBindings.blockLines, nativeBindings, List.filter_append, List.flatMap_append,
    List.filter_map, List.filter_map, List.flatMap_map, List.flatMap_map]
  rfl

/-- A block depends on whether the type has one, and on what its members are bound to. -/
theorem blockLines_congr {type : Text}
    (hknown : type ∈ namespaceTypes mapping c ↔ type ∈ namespaceTypes mapping c')
    (hentries : (memberBody mapping c.types type).entries =
      (memberBody mapping c'.types type).entries) :
    (nativeBindings mapping c).blockLines type = (nativeBindings mapping c').blockLines type := by
  have hsame : (namespaceTypes mapping c).filter (· = type) =
      (namespaceTypes mapping c').filter (· = type) := by
    rw [List.filter_eq, List.filter_eq, namespaceTypes, namespaceTypes,
      (TypeTable.nodup_unregistered _ _).count, (TypeTable.nodup_unregistered _ _).count]
    exact congrArg (List.replicate · type) (if_congr hknown rfl rfl)
  rw [blockLines_nativeBindings, blockLines_nativeBindings, hsame]
  congr 1
  · refine List.flatMap_congr ?_
    intro e he
    obtain rfl : e.name = type := by simpa using (List.mem_filter.mp he).2
    exact lines_registeredClass_congr hentries
  · refine List.flatMap_congr ?_
    intro t ht
    obtain rfl : t = type := by simpa using (List.mem_filter.mp ht).2
    exact lines_namespaceClass_congr hentries

/-! ## Members of a type -/

variable {policy : MemberPolicy} {functions : List NativeFunction}

/-- What is bound for a type comes from its own functions, whether there are any or not. -/
theorem memberBody_classify (mapping : TypeMapping) (policy : MemberPolicy) (type : Text)
    (functions : List NativeFunction) :
    memberBody mapping (policy.classify functions).types type =
      classBody mapping type (policy.gather type functions) := by
  rw [memberBody, MemberPolicy.find?_types_classify]
  by_cases h : ∃ d ∈ functions, d.typeName = type
  · simp only [if_pos h]
  · have hnone : ∀ d ∈ functions, d.typeName ≠ type := by simpa using h
    simp only [if_neg h, MemberPolicy.gather_eq_empty_of_forall_ne hnone]
    rfl

theorem mem_namespaceTypes_classify {type : Text} :
    type ∈ namespaceTypes mapping (policy.classify functions) ↔
      type ∉ mapping.table.names ∧ ∃ d ∈ functions, d.typeName = type := by
  rw [namespaceTypes, TypeTable.mem_unregistered, and_comm]
  refine and_congr_right fun _ => ?_
  rw [List.mem_map]
  constructor
  · rintro ⟨b, hb, rfl⟩
    obtain ⟨d, hd, rfl⟩ := MemberPolicy.mem_types_classify_iff.mp hb
    exact ⟨d, hd, (MemberPolicy.typeName_gather _ _).symm⟩
  · rintro ⟨d, hd, rfl⟩
    exact ⟨policy.gather d.typeName functions,
      MemberPolicy.mem_types_classify_iff.mpr ⟨d, hd, rfl⟩, MemberPolicy.typeName_gather _ _⟩

end HeaderBindings.Binding
