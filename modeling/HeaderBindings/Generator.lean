import HeaderBindings.Binding.EnumCode
import HeaderBindings.Binding.NativeCode
import HeaderBindings.Header.Enums
import HeaderBindings.Header.Functions

/-! From headers to generated files. Everything between reading and writing files is a function
of the header texts, the hand-written natives and the configuration. -/

namespace HeaderBindings

/-- The input of a run. -/
structure Inputs where
  enums : Option SourceFile := none
  natives : Option SourceFile := none
  handWritten : HandWritten := {}

/-- The output of a run: the generated texts that were asked for, the functions left out, and
the problems of the headers with their places. -/
structure Generated where
  enums : Option Text := none
  natives : Option Binding.NativeCode := none
  skipped : List (Text × Omission) := []
  warnings : List Text := []
deriving DecidableEq, Repr

/-- The qualified names that need manual wrapping. -/
def Generated.failed (a : Generated) : List Text :=
  match a.natives with
  | some natives => natives.failed
  | none => []

/-- Why there is no output. -/
inductive GenerationError where
  | missingEnums
  | missingNatives
  | badCut (cut : BadCut)
deriving DecidableEq, Repr

/-- The wording of the error. -/
def GenerationError.message : GenerationError → Text
  | missingEnums => "enum generation is enabled but no enum header was given"
  | missingNatives => "native generation is enabled but no natives header was given"
  | badCut cut =>
    "no text between the offsets " ++ Nat.toDigits 10 cut.start ++ " and " ++
      Nat.toDigits 10 cut.stop

/-- A configuration with the table that was built from its types. -/
structure Generator where
  config : Config
  table : TypeTable

namespace Generator

/-- Builds the type table of a configuration. -/
def ofConfig (config : Config) : Except TypeTableError Generator :=
  config.table.map (⟨config, ·⟩)

/-- The wrapped and the plain types. -/
def mapping (g : Generator) : TypeMapping := ⟨g.table, g.config.plain⟩

/-- The policy for a set of hand-written natives. -/
def policy (g : Generator) (handWritten : HandWritten) : MemberPolicy :=
  ⟨g.table, handWritten, g.config.names⟩

/-- The problems among findings as lines about a file. -/
def warnings (file : SourceFile) (found : Header.Findings α) : List Text :=
  found.diagnostics.map (·.summary file)

/-- The enumerations of a header, and its problems. -/
def readEnums (file : SourceFile) : Except BadCut (List EnumBlock × List Text) := do
  let found ← Header.enumsOf file.content
  return (found.items, warnings file found)

/-- The native functions of a header, and its problems. -/
def readNatives (file : SourceFile) : Except BadCut (List NativeFunction × List Text) := do
  let found ← Header.functionsOf file.content
  return (found.items, warnings file found)

/-- Generates the code for enumerations, with the problems of the header. -/
def generateEnums (inputs : Inputs) : Except GenerationError (Text × List Text) := do
  let some file := inputs.enums | throw .missingEnums
  let (enums, warnings) ← (readEnums file).mapError .badCut
  return (Binding.enumCode enums, warnings)

/-- Generates the code for natives, with what was left out and the problems of the header. -/
def generateNatives (g : Generator) (inputs : Inputs) :
    Except GenerationError (Binding.NativeCode × Classification × List Text) := do
  let some file := inputs.natives | throw .missingNatives
  let (functions, warnings) ← (readNatives file).mapError .badCut
  let classification := (g.policy inputs.handWritten).classify functions
  return (Binding.nativeCode g.mapping classification, classification, warnings)

/-- Generates what the configuration asks for. The list of failures comes from the natives, so
these are generated for it as well. -/
def generate (g : Generator) (inputs : Inputs) : Except GenerationError Generated := do
  let toggles := g.config.output
  let mut generated : Generated := {}
  if toggles.enums then
    let (code, warnings) ← generateEnums inputs
    generated := { generated with enums := some code, warnings }
  if toggles.natives || toggles.diagnostics then
    let (code, classification, warnings) ← g.generateNatives inputs
    generated := { generated with
      natives := some code
      skipped := classification.skipped
      warnings := generated.warnings ++ warnings }
  return generated

/-- The files to write, by name and in order. -/
def files (g : Generator) (generated : Generated) : List (Text × Text) :=
  let toggles := g.config.output
  let named (name content : Text) (isWanted : Bool) : List (Text × Text) :=
    if isWanted then [(name, content)] else []
  generated.enums.toList.flatMap (named "enums.cpp" · true) ++
  generated.natives.toList.flatMap fun code =>
    named "natives_type.h" code.wrapperHeader toggles.natives ++
    named "natives.cpp" code.registrations toggles.natives ++
    named "failed_natives.txt" (['\n'].intercalate code.failed) toggles.diagnostics

end Generator

end HeaderBindings
