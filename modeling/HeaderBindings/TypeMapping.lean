import HeaderBindings.Config

/-! How declared types appear in bindings: a registered type by its wrapper, an accepted plain
type as it is. Any other type has no mapping. -/

namespace HeaderBindings

/-- A type without a mapping. -/
inductive MissingMapping where
  | parameter (index : Nat) (type : Text)
  | result (type : Text)
deriving DecidableEq, Repr

/-- The wording of the failure. -/
def MissingMapping.message : MissingMapping → Text
  | parameter index type =>
    "parameter " ++ Nat.toDigits 10 index ++ " has unmappable type `" ++ type ++ "`"
  | result type => "unmappable return type `" ++ type ++ "`"

/-- The name of the wrapper of a registered type. -/
def wrapperOf (type : Text) : Text := "Py_" ++ type

/-- A parameter of a binding: its declared type, whether that is wrapped, and its name. -/
structure BoundParameter where
  type : Text
  isWrapped : Bool
  name : Text
deriving DecidableEq, Repr

namespace BoundParameter

/-- The parameter in the list of the lambda. -/
def declaration (p : BoundParameter) : Text :=
  (if p.isWrapped then wrapperOf p.type else p.type) ++ " " ++ p.name

/-- The argument that is passed on: the handle of a wrapper, or the value itself. -/
def argument (p : BoundParameter) : Text := if p.isWrapped then p.name ++ ".id" else p.name

end BoundParameter

/-- The types that have a mapping. -/
structure TypeMapping where
  table : TypeTable
  plain : PlainTypes

namespace TypeMapping

/-- Maps the parameter at a position. -/
def param (mapping : TypeMapping) (index : Nat) (type name : Text) :
    Except MissingMapping BoundParameter :=
  if mapping.table.contains type then .ok ⟨type, true, name⟩
  else if mapping.plain.allowsParameter type then .ok ⟨type, false, name⟩
  else .error (.parameter index type)

/-- Maps a result type to its spelling. -/
def result (mapping : TypeMapping) (type : Text) : Except MissingMapping Text :=
  if mapping.table.contains type then .ok (wrapperOf type)
  else if mapping.plain.allowsResult type then .ok type
  else .error (.result type)

end TypeMapping

end HeaderBindings
