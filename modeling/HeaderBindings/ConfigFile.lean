import HeaderBindings.Config
import HeaderBindings.Toml.Document

/-! The configuration file. Every section and every field may be missing and then has its
default; unknown keys are ignored. An array may stand for a section: its elements are the fields
in order. -/

namespace HeaderBindings.ConfigFile

open Toml

/-- The values of fields in a section. A table gives them by name and an array by position; a
date has none of them. -/
def fields? (names : List Text) : Node → Option (List (Option Node))
  | .table _ entries => some (names.map fun name => Entries.get? name entries)
  | .array elements => some (names.mapIdx fun i _ => elements[i]?)
  | .tables elements => some (names.mapIdx fun i _ => elements[i]?.map (.table .header))
  | .dateTime _ => some (names.map fun _ => none)
  | _ => none

/-- A boolean. -/
def bool? : Node → Option Bool
  | .boolean b => some b
  | _ => none

/-- A text. -/
def text? : Node → Option Text
  | .string t => some t
  | _ => none

/-- A list of texts. -/
def texts? : Node → Option (List Text)
  | .array elements => elements.mapM text?
  | _ => none

/-- The value of a field, or the default if it is missing. -/
def fieldOr (default : α) (read : Node → Option α) : Option Node → Option α
  | none => some default
  | some node => read node

/-- The value of a field that may be absent for good. -/
def optional (read : Node → Option α) : Option Node → Option (Option α)
  | none => some none
  | some node => (read node).map some

/-- The section `output`. -/
def output? (node : Node) : Option OutputSelection := do
  let default : OutputSelection := {}
  let [enums, natives, diagnostics] ← fields? ["enums", "natives", "diagnostics"] node | none
  return {
    enums := (← fieldOr default.enums bool? enums)
    natives := (← fieldOr default.natives bool? natives)
    diagnostics := (← fieldOr default.diagnostics bool? diagnostics) }

/-- The section `classify`. -/
def names? (node : Node) : Option NameFilter := do
  let default : NameFilter := {}
  let [hexPrefix, hexExempt] ← fields? ["hex_prefix", "hex_exempt"] node | none
  return {
    hexPrefix := (← fieldOr default.hexPrefix text? hexPrefix)
    hexExempt := (← fieldOr default.hexExempt texts? hexExempt) }

/-- The section `mapping`. -/
def plain? (node : Node) : Option PlainTypes := do
  let default : PlainTypes := {}
  let [params, returns] ← fields? ["params", "returns"] node | none
  return {
    params := (← fieldOr default.params texts? params)
    returns := (← fieldOr default.returns texts? returns) }

/-- A type. Its name and storage are required. -/
def typeOfNode? (node : Node) : Option LogicalType := do
  let [name, storage, parent, init] ← fields? ["name", "storage", "parent", "init"] node | none
  return {
    name := (← text? (← name))
    storage := (← text? (← storage))
    parent := (← optional text? parent)
    init := (← optional text? init) }

/-- The list of types. -/
def types? : Node → Option (List LogicalType)
  | .array elements => elements.mapM typeOfNode?
  | .tables elements => elements.mapM fun entries => typeOfNode? (.table .header entries)
  | _ => none

/-- The settings in the root table of a document. -/
def ofEntries? (entries : Entries) : Option Config := do
  let default : Config := {}
  return {
    output := (← fieldOr default.output output? (entries.get? "output"))
    names := (← fieldOr default.names names? (entries.get? "classify"))
    plain := (← fieldOr default.plain plain? (entries.get? "mapping"))
    types := (← fieldOr default.types types? (entries.get? "type")) }

/-- The settings in a text. There are none if the text is malformed or does not fit. -/
def ofText? (t : Text) : Option Config := do ofEntries? (← document? t)

end HeaderBindings.ConfigFile
