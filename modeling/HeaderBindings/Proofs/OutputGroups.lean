import HeaderBindings.CommandLine.Run
import HeaderBindings.Proofs.Outcome
import Mathlib.Data.List.Nodup

/-! # Groups of output files

The files of a run fall into three groups, each with a switch of its own. The switches decide
which files are written and which headers are warned about. What a file holds comes from the
headers, the hand-written natives and the rest of the configuration, so it is the same whatever
else is switched on. -/

namespace HeaderBindings

/-! ## Writing -/

namespace CommandLine

variable {m : Type → Type} [Monad m]

/-- Every write of a host succeeds. -/
def Host.WritesSucceed (host : Host m) : Prop :=
  ∀ path content, (fun _ => true) <$> host.write path content = host.write path content

/-- Where every write succeeds, all files are written, in order. -/
theorem run_writeFiles [LawfulMonad m] {host : Host m} (h : host.WritesSucceed) (dir : Text)
    (files : List (Text × Text)) :
    (writeFiles host dir files).run = do
      let _ ← files.mapM fun file => host.write (dir ++ "/" ++ file.1) file.2
      return .ok () := by
  induction files with
  | nil => simp [writeFiles]
  | cons file files ih =>
      obtain ⟨name, content⟩ := file
      have hwrite := h (dir ++ "/" ++ name) content
      rw [writeFiles, List.mapM_cons]
      simp only [ExceptT.run_bind, bind_assoc, pure_bind]
      rw [← hwrite]
      simp [Except.map, ih]

/-- The options only switch groups off. -/
theorem exists_restrict_eq (options : GenerateOptions) (g : Generator) :
    ∃ o : OutputSelection, (o.enums → g.config.output.enums) ∧
      (o.natives → g.config.output.natives) ∧ (o.diagnostics → g.config.output.diagnostics) ∧
      restrict options g = { g with config := { g.config with output := o } } := by
  refine ⟨_, ?_, ?_, ?_, rfl⟩ <;>
    exact fun h => (Bool.and_eq_true_iff.mp h).1

end CommandLine

/-! ## Files and warnings of every selection -/

/-- The files that a run can write, in order, each with the switch that it obeys. -/
def OutputSelection.switches (o : OutputSelection) : List (Text × Bool) :=
  [("enums.cpp", o.enums), ("natives_type.h", o.natives), ("natives.cpp", o.natives),
    ("failed_natives.txt", o.diagnostics)]

namespace Generator

variable {inputs : Inputs} {enumFile nativeFile : SourceFile} {enums : List EnumBlock}
  {functions : List NativeFunction} {enumWarnings nativeWarnings : List Text}

theorem generateEnums_eq_ok (hfile : inputs.enums = some enumFile)
    (hread : readEnums enumFile = .ok (enums, enumWarnings)) :
    generateEnums inputs = .ok (Binding.enumCode enums, enumWarnings) := by
  rw [generateEnums, hfile]
  simp only [hread, Except.mapError, ok_bind, pure_eq_ok]

theorem generateNatives_eq_ok (g : Generator) (hfile : inputs.natives = some nativeFile)
    (hread : readNatives nativeFile = .ok (functions, nativeWarnings)) :
    g.generateNatives inputs =
      .ok (Binding.nativeCode g.mapping ((g.policy inputs.handWritten).classify functions),
        (g.policy inputs.handWritten).classify functions, nativeWarnings) := by
  rw [generateNatives, hfile]
  simp only [hread, Except.mapError, ok_bind, pure_eq_ok]

/-- A run over headers that can be read generates each group that is asked for. -/
theorem generate_eq_ok (g : Generator) (henums : inputs.enums = some enumFile)
    (hnatives : inputs.natives = some nativeFile)
    (hreadEnums : readEnums enumFile = .ok (enums, enumWarnings))
    (hreadNatives : readNatives nativeFile = .ok (functions, nativeWarnings)) :
    let classification := (g.policy inputs.handWritten).classify functions
    let readsNatives := g.config.output.natives || g.config.output.diagnostics
    g.generate inputs = .ok
      { enums := if g.config.output.enums then some (Binding.enumCode enums) else none
        natives := if readsNatives then some (Binding.nativeCode g.mapping classification) else none
        skipped := if readsNatives then classification.skipped else []
        warnings := (if g.config.output.enums then enumWarnings else []) ++
          if readsNatives then nativeWarnings else [] } := by
  simp only [generate, generateEnums_eq_ok henums hreadEnums,
    generateNatives_eq_ok g hnatives hreadNatives]
  cases g.config.output.enums <;> cases g.config.output.natives <;>
    cases g.config.output.diagnostics <;> simp [ok_bind, pure_eq_ok]

/-- The texts of all files, for headers that hold these enumerations and functions. -/
def contents (g : Generator) (handWritten : HandWritten) (enums : List EnumBlock)
    (functions : List NativeFunction) : List (Text × Text) :=
  let code := Binding.nativeCode g.mapping ((g.policy handWritten).classify functions)
  [("enums.cpp", Binding.enumCode enums), ("natives_type.h", code.wrapperHeader),
    ("natives.cpp", code.registrations), ("failed_natives.txt", ['\n'].intercalate code.failed)]

theorem nodup_contents (g : Generator) (handWritten : HandWritten) :
    ((g.contents handWritten enums functions).map (·.1)).Nodup := by
  simp only [contents, List.map_cons, List.map_nil]
  decide

/-- A run for a selection: what it writes, and what it warns about. -/
def Produces (config : Config) (inputs : Inputs) (o : OutputSelection)
    (files : List (Text × Text)) (warnings : List Text) : Prop :=
  ∃ g generated, ofConfig { config with output := o } = .ok g ∧
    g.generate inputs = .ok generated ∧ g.files generated = files ∧ generated.warnings = warnings

/-- The contents of the files that a selection asks for. -/
def selected (o : OutputSelection) (contents : List (Text × Text)) : List (Text × Text) :=
  ((contents.zip o.switches).filter (·.2.2)).map (·.1)

theorem mem_of_mem_selected {o : OutputSelection} {contents : List (Text × Text)}
    {file : Text × Text} (h : file ∈ selected o contents) : file ∈ contents := by
  obtain ⟨⟨file, switch⟩, hmem, rfl⟩ := List.mem_map.mp h
  exact (List.of_mem_zip (List.mem_of_mem_filter hmem)).1

theorem names_selected_contents (o : OutputSelection) (g : Generator) (handWritten : HandWritten) :
    (selected o (g.contents handWritten enums functions)).map (·.1) =
      (o.switches.filter (·.2)).map (·.1) := by
  obtain ⟨e, n, d⟩ := o
  cases e <;> cases n <;> cases d <;> rfl

theorem exists_generate_eq_ok (g : Generator) (henums : inputs.enums = some enumFile)
    (hnatives : inputs.natives = some nativeFile)
    (hreadEnums : readEnums enumFile = .ok (enums, enumWarnings))
    (hreadNatives : readNatives nativeFile = .ok (functions, nativeWarnings)) :
    ∃ generated, g.generate inputs = .ok generated ∧
      g.files generated =
        selected g.config.output (g.contents inputs.handWritten enums functions) ∧
      generated.warnings = (if g.config.output.enums then enumWarnings else []) ++
        if g.config.output.natives || g.config.output.diagnostics then nativeWarnings else [] := by
  refine ⟨_, generate_eq_ok g henums hnatives hreadEnums hreadNatives, ?_, rfl⟩
  simp only [files, selected, contents, OutputSelection.switches]
  cases g.config.output.enums <;> cases g.config.output.natives <;>
    cases g.config.output.diagnostics <;> rfl

/-- What a selection produces is cut out of the same files for all of them. -/
theorem produces_iff {config : Config} {table : TypeTable} (htable : config.table = .ok table)
    (henums : inputs.enums = some enumFile) (hnatives : inputs.natives = some nativeFile)
    (hreadEnums : readEnums enumFile = .ok (enums, enumWarnings))
    (hreadNatives : readNatives nativeFile = .ok (functions, nativeWarnings))
    (o : OutputSelection) (files : List (Text × Text)) (warnings : List Text) :
    Produces config inputs o files warnings ↔
      files = selected o (contents ⟨config, table⟩ inputs.handWritten enums functions) ∧
      warnings = (if o.enums then enumWarnings else []) ++
        if o.natives || o.diagnostics then nativeWarnings else [] := by
  have hgenerator : ofConfig { config with output := o } =
      .ok ⟨{ config with output := o }, table⟩ := congrArg (Except.map _) htable
  obtain ⟨generated, hgenerate, hfiles, hwarnings⟩ := exists_generate_eq_ok
    ⟨{ config with output := o }, table⟩ henums hnatives hreadEnums hreadNatives
  constructor
  · rintro ⟨g, generated', hg, hrun, rfl, rfl⟩
    obtain rfl := Except.ok.inj (hgenerator.symm.trans hg)
    obtain rfl := Except.ok.inj (hgenerate.symm.trans hrun)
    exact ⟨hfiles, hwarnings⟩
  · rintro ⟨rfl, rfl⟩
    exact ⟨_, generated, hgenerator, hgenerate, hfiles, hwarnings⟩

/-- The groups of output files do not interfere. -/
structure GroupsIndependent (config : Config) (inputs : Inputs)
    (enumWarnings nativeWarnings : List Text) : Prop where
  /-- Every selection can be run. -/
  run : ∀ o, ∃ files warnings, Produces config inputs o files warnings
  /-- A file that two selections have in common has one content. -/
  content : ∀ {o o' files files' warnings warnings'},
    Produces config inputs o files warnings → Produces config inputs o' files' warnings' →
    ∀ {name content content'}, (name, content) ∈ files → (name, content') ∈ files' →
      content = content'
  /-- A file is there if and only if its switch is on. -/
  names : ∀ {o files warnings}, Produces config inputs o files warnings →
    files.map (·.1) = (o.switches.filter (·.2)).map (·.1)
  /-- Each header that is read is warned about, the one of enumerations first. -/
  warnings : ∀ {o files warnings}, Produces config inputs o files warnings →
    warnings = (if o.enums then enumWarnings else []) ++
      if o.natives || o.diagnostics then nativeWarnings else []
  /-- On a host where writes succeed, these files are written and no others. -/
  written : ∀ {o files warnings}, Produces config inputs o files warnings →
    ∀ {m : Type → Type} [Monad m] [LawfulMonad m] (host : CommandLine.Host m),
      host.WritesSucceed → ∀ dir,
        (CommandLine.writeFiles host dir files).run = do
          let _ ← files.mapM fun file => host.write (dir ++ "/" ++ file.1) file.2
          return .ok ()
  /-- The options of a command select some of the groups that the configuration selects. -/
  options : ∀ {g}, ofConfig config = .ok g → ∀ options : CommandLine.GenerateOptions,
    ∃ o : OutputSelection, (o.enums → config.output.enums) ∧
      (o.natives → config.output.natives) ∧ (o.diagnostics → config.output.diagnostics) ∧
      ofConfig { config with output := o } = .ok (CommandLine.restrict options g)

/-- For headers that can be read, the groups of output files are independent. -/
theorem groupsIndependent_of_readNatives {config : Config} {table : TypeTable}
    (htable : config.table = .ok table) (henums : inputs.enums = some enumFile)
    (hnatives : inputs.natives = some nativeFile)
    (hreadEnums : readEnums enumFile = .ok (enums, enumWarnings))
    (hreadNatives : readNatives nativeFile = .ok (functions, nativeWarnings)) :
    GroupsIndependent config inputs enumWarnings nativeWarnings := by
  have hproduces := produces_iff htable henums hnatives hreadEnums hreadNatives
  constructor
  case run => exact fun o => ⟨_, _, (hproduces _ _ _).mpr ⟨rfl, rfl⟩⟩
  case content =>
    intro o o' files files' warnings warnings' h h' name content content' hmem hmem'
    obtain ⟨rfl, -⟩ := (hproduces _ _ _).mp h
    obtain ⟨rfl, -⟩ := (hproduces _ _ _).mp h'
    have heq := List.inj_on_of_nodup_map (nodup_contents ⟨config, table⟩ inputs.handWritten)
      (mem_of_mem_selected hmem) (mem_of_mem_selected hmem') rfl
    exact (Prod.mk.inj heq).2
  case names =>
    intro o files warnings h
    obtain ⟨rfl, -⟩ := (hproduces _ _ _).mp h
    exact names_selected_contents o _ _
  case warnings => exact fun h => ((hproduces _ _ _).mp h).2
  case written => exact fun _ _ _ _ _ hwrites dir => CommandLine.run_writeFiles hwrites dir _
  case options =>
    intro g hg options
    obtain rfl := Except.ok.inj ((congrArg (Except.map _) htable).symm.trans hg)
    obtain ⟨o, he, hn, hd, hrestrict⟩ := CommandLine.exists_restrict_eq options ⟨config, table⟩
    refine ⟨o, he, hn, hd, ?_⟩
    rw [hrestrict]
    exact congrArg (Except.map _) htable

/-- Each header has a problem, so the switches show in the warnings. -/
theorem groupsIndependent_pair :
    let enumFile : SourceFile := ⟨"enums.h", "enum Mode \x7b On \x7d; enum Open \x7b"⟩
    let nativeFile : SourceFile :=
      ⟨"natives.h", "namespace PED \x7b static int GET_PED_AGE(Ped ped) \x7b\x7d static x; \x7d"⟩
    let inputs : Inputs := { enums := some enumFile, natives := some nativeFile }
    let enums : List EnumBlock := [⟨"Mode", [⟨"On", false, "on"⟩], ⟨0, 17⟩⟩]
    let enumWarnings : List Text :=
      ["enums.h:1:29: enum `Open` is malformed: `\x7b` at offset 28 is never closed"]
    let functions : List NativeFunction :=
      [⟨"PED", "int", "GET_PED_AGE", [⟨"Ped", "ped"⟩], ⟨16, 50⟩⟩]
    let nativeWarnings : List Text :=
      ["natives.h:1:52: expected a function declaration in namespace `PED`"]
    Config.table {} = .ok ⟨stockTypes⟩ ∧ inputs.enums = some enumFile ∧
      inputs.natives = some nativeFile ∧ readEnums enumFile = .ok (enums, enumWarnings) ∧
      readNatives nativeFile = .ok (functions, nativeWarnings) ∧
      GroupsIndependent {} inputs enumWarnings nativeWarnings := by
  intro enumFile nativeFile inputs enums enumWarnings functions nativeWarnings
  have htable : Config.table {} = .ok ⟨stockTypes⟩ := by decide +kernel
  have hreadEnums : readEnums enumFile = .ok (enums, enumWarnings) := by decide +kernel
  have hreadNatives : readNatives nativeFile = .ok (functions, nativeWarnings) := by
    decide +kernel
  exact ⟨htable, rfl, rfl, hreadEnums, hreadNatives,
    groupsIndependent_of_readNatives htable rfl rfl hreadEnums hreadNatives⟩

end Generator

end HeaderBindings
