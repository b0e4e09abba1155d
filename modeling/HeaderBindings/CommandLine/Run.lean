import HeaderBindings.CommandLine.Request
import HeaderBindings.ConfigFile
import HeaderBindings.Generator
import HeaderBindings.Listing

/-! Running a request against a host that keeps files. -/

namespace HeaderBindings.CommandLine

/-- Where files are kept. Reading fails unless there is a file that holds text. -/
structure Host (m : Type → Type) where
  read? : (path : Text) → m (Option Text)
  /-- Makes a directory with those above it and says whether it is there now. -/
  makeDirectory : (path : Text) → m Bool
  /-- Writes a file and says whether that worked. -/
  write : (path content : Text) → m Bool

/-- Why a run fails. -/
inductive Failure where
  | unreadable (path : Text)
  | malformedConfig (path : Text)
  | badTypes (error : TypeTableError)
  | generation (error : GenerationError)
  | uncreatable (path : Text)
  | unwritable (path : Text)
deriving DecidableEq, Repr

/-- The wording of a failure. -/
def Failure.message : Failure → Text
  | unreadable path => "Failed to read " ++ path
  | malformedConfig path => "Failed to parse TOML config " ++ path
  | badTypes error => error.message
  | generation error => error.message
  | uncreatable path => "Failed to create " ++ path
  | unwritable path => "Failed to write " ++ path

/-- How a run ends: with text for the standard output, or with a complaint. -/
inductive Outcome where
  | printed (output : Text)
  | refused (error : UsageError)
  | failed (failure : Failure)
deriving DecidableEq, Repr

namespace Outcome

/-- The exit code: zero for success, two for wrong usage, and for a header that cannot be cut
another one than for all other failures. -/
def exitCode : Outcome → Nat
  | printed _ => 0
  | refused _ => 2
  | failed (.generation (.badCut _)) => 101
  | failed _ => 1

/-- What goes to the standard output. -/
def output : Outcome → Text
  | printed output => output
  | _ => []

/-- What goes to the standard error. -/
def complaint? : Outcome → Option Text
  | printed _ => none
  | refused error => some error.message
  | failed failure => some failure.message

end Outcome

section

variable {m : Type → Type} [Monad m] (host : Host m)

/-- Reads a file. -/
def readFile (path : Text) : ExceptT Failure m SourceFile := do
  let some content ← host.read? path | throw (.unreadable path)
  return ⟨path, content⟩

/-- Reads a file if there is a path. -/
def readFile? : Option Text → ExceptT Failure m (Option SourceFile)
  | none => return none
  | some path => return some (← readFile host path)

/-- The generator for a configuration file, or for the default configuration. -/
def loadGenerator (path? : Option Text) : ExceptT Failure m Generator := do
  let config ← match path? with
    | none => pure {}
    | some path =>
      let file ← readFile host path
      let some config := ConfigFile.ofText? file.content | throw (.malformedConfig path)
      pure config
  match Generator.ofConfig config with
  | .ok g => return g
  | .error e => throw (.badTypes e)

/-- Reads the sources with hand-written natives, and then the headers. -/
def loadInputs (options : GenerateOptions) : ExceptT Failure m Inputs := do
  let files ← options.overrides.mapM (readFile host)
  return {
    handWritten := files.foldl (fun set file => set.addMentions file.content) {}
    enums := (← readFile? host options.enums?)
    natives := (← readFile? host options.natives?) }

/-- Writes files into a directory, one after the other up to the first failure. -/
def writeFiles (dir : Text) : List (Text × Text) → ExceptT Failure m Unit
  | [] => return
  | (name, content) :: rest => do
    let path := dir ++ "/" ++ name
    if !(← host.write path content) then throw (.unwritable path)
    writeFiles dir rest

/-- The generator without the groups of files that options switch off. -/
def restrict (options : GenerateOptions) (g : Generator) : Generator :=
  let output := g.config.output
  { g with config := { g.config with output := {
      enums := output.enums && !options.noEnums
      natives := output.natives && !options.noNatives
      diagnostics := output.diagnostics && !options.noDiagnostics } } }

/-- Generates files and gives a summary. -/
def runGenerate (options : GenerateOptions) : ExceptT Failure m Text := do
  let g := restrict options (← loadGenerator host options.config?)
  let inputs ← loadInputs host options
  match g.generate inputs with
  | .error e => throw (.generation e)
  | .ok generated =>
    if !(← host.makeDirectory options.outDir) then throw (.uncreatable options.outDir)
    writeFiles host options.outDir (g.files generated)
    return Nat.toDigits 10 generated.failed.length ++ " declarations need manual wrapping\n"

/-- Lists what a header holds. -/
def runDump (options : DumpOptions) : ExceptT Failure m Text := do
  let g ← loadGenerator host options.config?
  let file ← readFile host options.natives
  match Generator.readNatives file with
  | .error cut => throw (.generation (.badCut cut))
  | .ok (functions, _) =>
    match options.format with
    | .declarations => return Listing.declarations functions
    | .members => return Listing.members ((g.policy {}).classify functions)

/-- A summary of the usage. -/
def usage : Text :=
  "Generate pybind11 bindings from native headers\n\n" ++
  "Usage: nativegen [--verbose] generate [--enums FILE] [--natives FILE] [--overrides FILE]...\n" ++
  "           [--config FILE] [--out-dir DIR] [--no-enums] [--no-natives] [--no-diagnostics]\n" ++
  "       nativegen [--verbose] dump --natives FILE [--config FILE]\n" ++
  "           [--format declarations|members]\n" ++
  "       nativegen --version\n"

/-- Runs the program with a list of arguments. -/
def run (args : List Text) : m Outcome := do
  match Request.ofArguments args with
  | .error e => return .refused e
  | .ok request =>
    let result ← ExceptT.run <| match request with
      | .generate options => runGenerate host options
      | .dump options => runDump host options
      | .version => pure "nativegen 0.1.0\n"
      | .help => pure usage
    match result with
    | .ok output => return .printed output
    | .error failure => return .failed failure

end

end HeaderBindings.CommandLine
