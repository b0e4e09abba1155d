import HeaderBindings.Text.Pieces

/-! Reading options from a list of arguments. Options stand before the first word; their values
follow as the next argument or after an equals sign. -/

namespace HeaderBindings.CommandLine

open Text

/-- An option that a command knows. -/
structure OptionSpec where
  /-- The name after two dashes. -/
  name : Text
  /-- The letter after one dash. -/
  letter? : Option Char := none
  takesValue : Bool := false
  /-- The option may be given more than once. -/
  repeats : Bool := false
  /-- Nothing behind the option is read. -/
  stops : Bool := false
  accepts : Text → Bool := fun value => !value.isEmpty

/-- Why a list of arguments is refused. -/
inductive UsageError where
  | unknownOption (arg : Text)
  | repeatedOption (name : Text)
  | missingValue (name : Text)
  | badValue (name value : Text)
  | unexpectedValue (name : Text)
  | unexpectedArgument (arg : Text)
  | unknownCommand (word : Text)
  | missingCommand
  | missingOption (name : Text)
deriving DecidableEq, Repr

/-- The wording of the error. -/
def UsageError.message : UsageError → Text
  | unknownOption arg => "unknown option " ++ arg
  | repeatedOption name => "option --" ++ name ++ " may be given once only"
  | missingValue name => "option --" ++ name ++ " needs a value"
  | badValue name value => "option --" ++ name ++ " does not accept the value '" ++ value ++ "'"
  | unexpectedValue name => "option --" ++ name ++ " takes no value"
  | unexpectedArgument arg => "unexpected argument " ++ arg
  | unknownCommand word => "unknown command " ++ word
  | missingCommand => "a command is required"
  | missingOption name => "option --" ++ name ++ " is required"

/-- The options that were given, in order, with their values. -/
abbrev Settings := List (Text × Text)

namespace Settings

/-- Whether an option was given. -/
def has (name : Text) (s : Settings) : Bool := s.any fun setting => setting.1 = name

/-- The value of an option. -/
def value? (name : Text) (s : Settings) : Option Text := s.lookup name

/-- The values of an option that repeats. -/
def values (name : Text) (s : Settings) : List Text :=
  (s.filter fun setting => setting.1 = name).map (·.2)

/-- Adds an option with its value. -/
def add (spec : OptionSpec) (value : Text) (s : Settings) : Except UsageError Settings :=
  if spec.takesValue && !spec.accepts value then throw (.badValue spec.name value)
  else if !spec.repeats && s.has spec.name then throw (.repeatedOption spec.name)
  else return s ++ [(spec.name, value)]

end Settings

/-- How far the options reach. -/
inductive Scanned where
  | ended (settings : Settings)
  /-- A word that is no option, and the arguments behind it. -/
  | word (settings : Settings) (word : Text) (rest : List Text)
  /-- An option that stops the reading. -/
  | stopped (name : Text)

/-- Whether an argument can only be an option. -/
def looksLikeOption : Text → Bool
  | '-' :: _ :: _ => true
  | _ => false

/-- Adds options that are given by letters behind one dash. Gives the name of one that stops. -/
def addLetters (specs : List OptionSpec) (arg : Text) :
    Text → Settings → Except UsageError (Settings × Option Text)
  | [], settings => return (settings, none)
  | letter :: others, settings => do
    let some spec := specs.find? (·.letter? == some letter) | throw (.unknownOption arg)
    let settings ← settings.add spec []
    if spec.stops then return (settings, some spec.name)
    else addLetters specs arg others settings

/-- Reads options up to the first word. After two dashes nothing may follow. -/
def scan (specs : List OptionSpec) : Settings → List Text → Except UsageError Scanned
  | settings, [] => return .ended settings
  | settings, ('-' :: '-' :: body) :: rest => do
    if body.isEmpty then
      match rest with
      | [] => return .ended settings
      | arg :: _ => throw (.unexpectedArgument arg)
    else
      let name := body.takeWhile (· != '=')
      let some spec := specs.find? (·.name == name) | throw (.unknownOption ("--" ++ body))
      match body.drop name.length with
      | _ :: value =>
        if !spec.takesValue then throw (.unexpectedValue spec.name)
        scan specs (← settings.add spec value) rest
      | [] =>
        if spec.takesValue then
          match rest with
          | [] => throw (.missingValue spec.name)
          | value :: rest =>
            if looksLikeOption value then throw (.missingValue spec.name)
            scan specs (← settings.add spec value) rest
        else
          let settings ← settings.add spec []
          if spec.stops then return .stopped spec.name else scan specs settings rest
  | settings, ('-' :: letter :: letters) :: rest => do
    match (← addLetters specs ('-' :: letter :: letters) (letter :: letters) settings) with
    | (_, some name) => return .stopped name
    | (settings, none) => scan specs settings rest
  | settings, word :: rest => return .word settings word rest

end HeaderBindings.CommandLine
