import HeaderBindings.CommandLine.Options

/-! The commands of the program and their options. -/

namespace HeaderBindings.CommandLine

/-- The options of `generate`. -/
structure GenerateOptions where
  enums? : Option Text := none
  natives? : Option Text := none
  overrides : List Text := []
  config? : Option Text := none
  outDir : Text := "."
  noEnums : Bool := false
  noNatives : Bool := false
  noDiagnostics : Bool := false
deriving DecidableEq, Repr

/-- What `dump` prints. -/
inductive ListingFormat where
  | declarations
  | members
deriving DecidableEq, Repr

/-- The options of `dump`. -/
structure DumpOptions where
  natives : Text
  config? : Option Text := none
  format : ListingFormat := .declarations
deriving DecidableEq, Repr

/-- What the program is asked to do. -/
inductive Request where
  | generate (options : GenerateOptions)
  | dump (options : DumpOptions)
  | version
  | help
deriving DecidableEq, Repr

/-- The option for a log of decisions, which every command knows. -/
def verboseOption : OptionSpec := { name := "verbose", letter? := some 'v' }

/-- The option for a summary of the usage, which every command knows. -/
def helpOption : OptionSpec := { name := "help", letter? := some 'h', stops := true }

/-- The options before the command. -/
def programOptions : List OptionSpec :=
  [verboseOption, helpOption, { name := "version", letter? := some 'V', stops := true }]

/-- The options of `generate`. -/
def generateOptions : List OptionSpec :=
  [ verboseOption, helpOption,
    { name := "enums", takesValue := true },
    { name := "natives", takesValue := true },
    { name := "overrides", takesValue := true, repeats := true },
    { name := "config", takesValue := true },
    { name := "out-dir", takesValue := true },
    { name := "no-enums" },
    { name := "no-natives" },
    { name := "no-diagnostics" } ]

/-- The format of a name. -/
def ListingFormat.ofName? (name : Text) : Option ListingFormat :=
  if name = "declarations" then some declarations
  else if name = "members" then some members
  else none

/-- The options of `dump`. -/
def dumpOptions : List OptionSpec :=
  [ verboseOption, helpOption,
    { name := "natives", takesValue := true },
    { name := "config", takesValue := true },
    { name := "format", takesValue := true,
      accepts := fun value => (ListingFormat.ofName? value).isSome } ]

/-- The settings of a command, unless its usage is asked for. No word may stand among them. -/
def commandSettings (specs : List OptionSpec) (args : List Text) :
    Except UsageError (Option Settings) := do
  match (← scan specs [] args) with
  | .ended settings => return some settings
  | .word _ word _ => throw (.unexpectedArgument word)
  | .stopped _ => return none

/-- Reads the options of `generate`. -/
def readGenerate (args : List Text) : Except UsageError Request := do
  let some settings ← commandSettings generateOptions args | return .help
  return .generate {
    enums? := settings.value? "enums"
    natives? := settings.value? "natives"
    overrides := settings.values "overrides"
    config? := settings.value? "config"
    outDir := (settings.value? "out-dir").getD "."
    noEnums := settings.has "no-enums"
    noNatives := settings.has "no-natives"
    noDiagnostics := settings.has "no-diagnostics" }

/-- Reads the options of `dump`. -/
def readDump (args : List Text) : Except UsageError Request := do
  let some settings ← commandSettings dumpOptions args | return .help
  let some natives := settings.value? "natives" | throw (.missingOption "natives")
  return .dump {
    natives
    config? := settings.value? "config"
    format := ((settings.value? "format").bind ListingFormat.ofName?).getD .declarations }

/-- The names of the commands. -/
def commandNames : List Text := ["generate", "dump", "help"]

/-- Reads a list of arguments. -/
def Request.ofArguments (args : List Text) : Except UsageError Request := do
  match (← scan programOptions [] args) with
  | .stopped name => return if name = "version" then .version else .help
  | .ended _ => throw .missingCommand
  | .word _ word rest =>
    if word = "generate" then readGenerate rest
    else if word = "dump" then readDump rest
    else if word = "help" then
      match rest with
      | [] => return .help
      | [topic] => if topic ∈ commandNames then return .help else throw (.unknownCommand topic)
      | _ :: arg :: _ => throw (.unexpectedArgument arg)
    else throw (.unknownCommand word)

end HeaderBindings.CommandLine
