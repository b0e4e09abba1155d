import HeaderBindings.Generator
import HeaderBindings.Proofs.Header.EnumProvenance
import HeaderBindings.Proofs.Header.TopLevelParts

/-! # From an enumeration to its bindings

The generated code for a header has one group for each enumeration, in the order of the header,
and in it one binding for each part of the body that is not blank. A binding names the text left
of the first equals sign of its part, so values do not matter to the code. -/

namespace HeaderBindings.Binding

open List Text Header

/-! ## The text -/

/-- The text that binds an entry of an enumeration under a name. -/
def bindingText (name entry exposed : Text) : Text :=
  "\t\t.value(\"" ++ exposed ++ "\"," ++ name ++ "::" ++ entry ++ ")\n"

/-- The text that registers an enumeration with the given parts of its body. -/
def groupText (name : Text) (parts : List Text) : Text :=
  "\tpy::enum_<" ++ name ++ ">(m, \"" ++ name ++ "\")\n" ++
    (namingParts parts).flatMap (fun part =>
      bindingText name (nameOfPart part) (EnumBlock.boundName name (nameOfPart part))) ++ "\t;\n"

/-- What stands before the first group. -/
def enumOpening : Text :=
  "// This file is auto-generated, do NOT edit!\n" ++ "#include \"pybind11/pybind11.h\"\n" ++
    "#include \"scripthook/enums.h\"\n" ++ "\n" ++ "namespace py = pybind11;\n" ++ "\n" ++
    "void defEnums(py::module m) \x7b\n"

theorem render_entry (name : Text) (entry : EnumEntry) :
    Line.render ⟨2, ".value(\"" ++ entry.exposed ++ "\"," ++ name ++ "::" ++ entry.name ++ ")"⟩ =
      bindingText name entry.name entry.exposed := by
  have hstart : "\t\t.value(\"".toList = List.replicate 2 '\t' ++ ".value(\"".toList := by decide
  have hend : ")\n".toList = ")".toList ++ "\n".toList := by decide
  unfold bindingText
  rw [render_of_ne_nil (by simp), hstart, hend]
  simp only [List.append_assoc]

theorem render_group (name : Text) :
    Line.render ⟨1, "py::enum_<" ++ name ++ ">(m, \"" ++ name ++ "\")"⟩ =
      "\tpy::enum_<" ++ name ++ ">(m, \"" ++ name ++ "\")\n" := by
  have hstart : "\tpy::enum_<".toList = List.replicate 1 '\t' ++ "py::enum_<".toList := by decide
  have hend : "\")\n".toList = "\")".toList ++ "\n".toList := by decide
  rw [render_of_ne_nil (by simp), hstart, hend]
  simp only [List.append_assoc]

/-- The lines of an enumeration, given the names of its entries and those they are bound under. -/
theorem render_enumLines {e : EnumBlock} {parts : List Text}
    (h : e.entries.map (fun entry => (entry.name, entry.exposed)) =
      (namingParts parts).map fun part =>
        (nameOfPart part, EnumBlock.boundName e.name (nameOfPart part))) :
    render (enumLines e) = groupText e.name parts := by
  have hentries : render (e.entries.map fun entry =>
      ⟨2, ".value(\"" ++ entry.exposed ++ "\"," ++ e.name ++ "::" ++ entry.name ++ ")"⟩) =
      (e.entries.map fun entry => (entry.name, entry.exposed)).flatMap fun entry =>
        bindingText e.name entry.1 entry.2 := by
    rw [render, List.flatMap_map, List.flatMap_map]
    exact List.flatMap_congr fun entry _ => render_entry e.name entry
  have hclose : Line.render ⟨1, ";"⟩ = "\t;\n" := by decide
  unfold enumLines groupText
  rw [render_append, render_append, hentries, h, List.flatMap_map, render_cons, render_cons,
    render_nil, render_group, hclose, List.append_nil, List.append_nil]

/-- The code is made of the texts of its enumerations. -/
theorem enumCode_eq (enums : List EnumBlock) :
    enumCode enums =
      enumOpening ++ enums.flatMap (fun e => render (enumLines e)) ++ "\x7d\n" := by
  have hopening : render [banner, ⟨0, "#include \"pybind11/pybind11.h\""⟩,
      ⟨0, "#include \"scripthook/enums.h\""⟩, ⟨0, ""⟩, ⟨0, "namespace py = pybind11;"⟩, ⟨0, ""⟩,
      ⟨0, "void defEnums(py::module m) \x7b"⟩] = enumOpening := by decide +kernel
  have hclose : render [⟨0, "\x7d"⟩] = "\x7d\n" := by decide
  unfold enumCode
  rw [render_append, render_append, hopening, hclose, render, List.flatMap_assoc]
  rfl

/-! ## The enumerations of a header -/

/-- An enumeration of a text between two offsets, with the parts of its body. -/
def PartsAt (t : Text) (e : EnumBlock × List Text) (start stop : Nat) : Prop :=
  ∃ before text behind, t = before ++ (text ++ behind) ∧
    separatesWords before.getLast? = true ∧ start = size before ∧ stop = start + size text ∧
    e.1.span = .between start stop ∧ ∃ p : EnumParts e.1.name text,
      e.1.entries = enumEntries e.1.name p.body ∧ TopLevelParts ',' p.body e.2

/-- The enumerations of a header with the parts of their bodies: they stand in the header one
behind the other. -/
structure IsHarvest (content : Text) (harvest : List (EnumBlock × List Text)) : Prop where
  enumsOf_eq : ∃ found, enumsOf content = .ok found ∧ found.items = harvest.map (·.1)
  successive : Successive (PartsAt (blankComments content)) 0 harvest (size (blankComments content))

/-- The code that registers enumerations with the given parts of their bodies. -/
def harvestText (harvest : List (EnumBlock × List Text)) : Text :=
  enumOpening ++ harvest.flatMap (fun e => groupText e.1.name e.2) ++ "\x7d\n"

/-- Two enumerations of one name whose parts differ at most in their values. -/
def SameButValues (e e' : EnumBlock × List Text) : Prop :=
  e.1.name = e'.1.name ∧ Forall₂ SameButValue e.2 e'.2

theorem exists_successive_parts {t : Text} {items : List EnumBlock} {low high : Nat}
    (h : Successive (EnumAt t) low items high) :
    ∃ harvest, items = harvest.map (·.1) ∧ Successive (PartsAt t) low harvest high := by
  induction h with
  | nil h => exact ⟨[], rfl, .nil h⟩
  | @cons low high start stop e later hplace hlow _ ih =>
      obtain ⟨harvest, rfl, hharvest⟩ := ih
      obtain ⟨before, text, behind, ht, hbefore, hstart, hstop, hspan, p, hentries⟩ := hplace
      obtain ⟨parts, hparts⟩ := exists_topLevelParts ',' p.body
      have hplace : PartsAt t (e, parts) start stop :=
        ⟨before, text, behind, ht, hbefore, hstart, hstop, hspan, p, hentries, hparts⟩
      exact ⟨(e, parts) :: harvest, rfl, .cons hplace hlow hharvest⟩

theorem exists_isHarvest (content : Text) : ∃ harvest, IsHarvest content harvest := by
  obtain ⟨found, hfound⟩ := exists_enumsOf_eq_ok content
  obtain ⟨harvest, hitems, hharvest⟩ := exists_successive_parts (successive_of_enumsIn hfound)
  exact ⟨harvest, ⟨found, hfound, hitems⟩, hharvest⟩

theorem enumCode_of_isHarvest {content : Text} {harvest : List (EnumBlock × List Text)}
    (h : IsHarvest content harvest) : enumCode (harvest.map (·.1)) = harvestText harvest := by
  unfold harvestText
  rw [enumCode_eq, List.flatMap_map]
  refine congrArg (enumOpening ++ · ++ "\x7d\n") (List.flatMap_congr fun e he => ?_)
  obtain ⟨start, stop, _, _, _, -, -, -, -, -, p, hentries, hparts⟩ :=
    h.successive.exists_place e he
  apply render_enumLines
  rw [hentries]
  exact map_enumEntries_of_topLevelParts e.1.name hparts

theorem groupText_congr {name : Text} {parts parts' : List Text}
    (h : Forall₂ SameButValue parts parts') : groupText name parts = groupText name parts' := by
  have hbindings : ∀ parts : List Text, (namingParts parts).flatMap (fun part =>
      bindingText name (nameOfPart part) (EnumBlock.boundName name (nameOfPart part))) =
      ((namingParts parts).map nameOfPart).flatMap fun entry =>
        bindingText name entry (EnumBlock.boundName name entry) := by
    intro parts
    rw [List.flatMap_map]
  unfold groupText
  rw [hbindings, hbindings, map_nameOfPart_namingParts_congr h]

/-- Values do not matter to the code. -/
theorem harvestText_congr {harvest harvest' : List (EnumBlock × List Text)}
    (h : Forall₂ SameButValues harvest harvest') : harvestText harvest = harvestText harvest' := by
  have hgroups : harvest.flatMap (fun e => groupText e.1.name e.2) =
      harvest'.flatMap fun e => groupText e.1.name e.2 := by
    induction h with
    | nil => rfl
    | cons hhead _ ih =>
        obtain ⟨hname, hparts⟩ := hhead
        rw [List.flatMap_cons, List.flatMap_cons, ih, hname, groupText_congr hparts]
  unfold harvestText
  rw [hgroups]

/-! ## Generation -/

section

variable {inputs : Inputs} {file : SourceFile} {harvest : List (EnumBlock × List Text)}

theorem generateEnums_of_isHarvest (hfile : inputs.enums = some file)
    (h : IsHarvest file.content harvest) :
    ∃ warnings, Generator.generateEnums inputs = .ok (harvestText harvest, warnings) := by
  obtain ⟨found, hfound, hitems⟩ := h.enumsOf_eq
  refine ⟨Generator.warnings file found, ?_⟩
  rw [← enumCode_of_isHarvest h, ← hitems, Generator.generateEnums, hfile]
  simp only [Generator.readEnums, hfound, ok_bind, pure_eq_ok, Except.mapError]

theorem generate_of_isHarvest (g : Generator) (henums : g.config.output.enums = true)
    (hfile : inputs.enums = some file) (h : IsHarvest file.content harvest) :
    ∃ warnings, g.generate inputs =
      if (g.config.output.natives || g.config.output.diagnostics) = true then
        (g.generateNatives inputs).map fun natives =>
          { enums := some (harvestText harvest), natives := some natives.1,
            skipped := natives.2.1.skipped, warnings := warnings ++ natives.2.2 }
      else .ok { enums := some (harvestText harvest), warnings := warnings } := by
  obtain ⟨warnings, hcode⟩ := generateEnums_of_isHarvest hfile h
  refine ⟨warnings, ?_⟩
  rw [Generator.generate]
  simp only [henums, if_true, hcode, ok_bind, pure_eq_ok]
  split
  · cases g.generateNatives inputs <;> rfl
  · rfl

theorem enums_of_generate_eq_ok {g : Generator} {generated : Generated}
    (henums : g.config.output.enums = true) (hfile : inputs.enums = some file)
    (h : IsHarvest file.content harvest) (hgenerate : g.generate inputs = .ok generated) :
    generated.enums = some (harvestText harvest) := by
  obtain ⟨warnings, hresult⟩ := generate_of_isHarvest g henums hfile h
  rw [hresult] at hgenerate
  split at hgenerate
  · obtain ⟨natives, hnatives⟩ : ∃ natives, g.generateNatives inputs = .ok natives := by
      cases hnatives : g.generateNatives inputs with
      | error cause =>
          rw [hnatives] at hgenerate
          cases hgenerate
      | ok natives => exact ⟨natives, rfl⟩
    rw [hnatives] at hgenerate
    cases hgenerate
    rfl
  · cases hgenerate
    rfl

theorem exists_generate_eq_ok_iff {g : Generator} (henums : g.config.output.enums = true)
    (hfile : inputs.enums = some file) (h : IsHarvest file.content harvest) :
    (∃ generated, g.generate inputs = .ok generated) ↔
      ((g.config.output.natives || g.config.output.diagnostics) = true →
        ∃ natives, g.generateNatives inputs = .ok natives) := by
  obtain ⟨warnings, hresult⟩ := generate_of_isHarvest g henums hfile h
  rw [hresult]
  by_cases hwanted : (g.config.output.natives || g.config.output.diagnostics) = true
  · rw [if_pos hwanted]
    cases g.generateNatives inputs with
    | error cause => simp [Except.map, hwanted]
    | ok natives => simp [Except.map]
  · rw [if_neg hwanted]
    exact ⟨fun _ hnatives => absurd hnatives hwanted, fun _ => ⟨_, rfl⟩⟩

end

/-- A run that is asked for enumerations generates them whatever their header holds, unless the
natives that it is also asked for fail. The code has one group for each enumeration of the header,
in its order, with one binding for each part of the body that is not blank; and another header with
the same enumerations but for the values leads to the same code. -/
theorem enums_of_generate {g : Generator} {inputs : Inputs} {file : SourceFile}
    (henums : g.config.output.enums = true) (hfile : inputs.enums = some file) :
    ∃ harvest, IsHarvest file.content harvest ∧
      (∀ generated, g.generate inputs = .ok generated →
        generated.enums = some (harvestText harvest)) ∧
      ((∃ generated, g.generate inputs = .ok generated) ↔
        ((g.config.output.natives || g.config.output.diagnostics) = true →
          ∃ natives, g.generateNatives inputs = .ok natives)) ∧
      ∀ (inputs' : Inputs) (file' : SourceFile) (harvest' : List (EnumBlock × List Text)),
        inputs'.enums = some file' → IsHarvest file'.content harvest' →
        Forall₂ SameButValues harvest harvest' →
        ∀ generated', g.generate inputs' = .ok generated' →
          generated'.enums = some (harvestText harvest) := by
  obtain ⟨harvest, hharvest⟩ := exists_isHarvest file.content
  refine ⟨harvest, hharvest, fun generated => enums_of_generate_eq_ok henums hfile hharvest,
    exists_generate_eq_ok_iff henums hfile hharvest, ?_⟩
  intro inputs' file' harvest' hfile' hharvest' hsame generated' hgenerate
  rw [harvestText_congr hsame]
  exact enums_of_generate_eq_ok henums hfile' hharvest' hgenerate

/-- Nested commas, a braced value and a blank part. -/
theorem enums_of_generate_mode :
    let file : SourceFile :=
      ⟨"enums.h", "enum class Mode : int \x7b MODE_OFF = f(1, 2), , On = int\x7b3\x7d, \x7d;"⟩
    let inputs : Inputs := { enums := some file }
    let g : Generator := ⟨{ output := ⟨true, false, false⟩ }, ⟨[]⟩⟩
    g.config.output.enums = true ∧ inputs.enums = some file ∧
      g.generate inputs = .ok { enums := some (enumOpening ++ "\tpy::enum_<Mode>(m, \"Mode\")\n" ++
        "\t\t.value(\"off\",Mode::MODE_OFF)\n" ++ "\t\t.value(\"on\",Mode::On)\n" ++ "\t;\n" ++
        "\x7d\n") } ∧
      ∃ harvest, IsHarvest file.content harvest ∧
        (∀ generated, g.generate inputs = .ok generated →
          generated.enums = some (harvestText harvest)) ∧
        ((∃ generated, g.generate inputs = .ok generated) ↔
          ((g.config.output.natives || g.config.output.diagnostics) = true →
            ∃ natives, g.generateNatives inputs = .ok natives)) ∧
        ∀ (inputs' : Inputs) (file' : SourceFile) (harvest' : List (EnumBlock × List Text)),
          inputs'.enums = some file' → IsHarvest file'.content harvest' →
          Forall₂ SameButValues harvest harvest' →
          ∀ generated', g.generate inputs' = .ok generated' →
            generated'.enums = some (harvestText harvest) := by
  intro file inputs g
  exact ⟨rfl, rfl, by decide +kernel, enums_of_generate rfl rfl⟩

end HeaderBindings.Binding
