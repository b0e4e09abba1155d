import HeaderBindings.Binding.Lines
import HeaderBindings.TypeMapping

/-! The header of wrapper types: a structure around a handle for every registered type, and an
empty structure for every type that is a namespace only. -/

namespace HeaderBindings.Binding

/-- What a wrapper is built on. -/
inductive WrapperBase where
  /-- A handle of its own, of the given storage. -/
  | handle (storage : Text)
  /-- The wrapper of the parent type, whose handle it inherits. -/
  | parent (type : Text)
  /-- Nothing: no object of the type is ever passed. -/
  | empty
deriving DecidableEq, Repr

/-- The structure that wraps the objects of a type. -/
structure Wrapper where
  type : Text
  base : WrapperBase
deriving DecidableEq, Repr

namespace Wrapper

/-- The wrapper of a registered type. -/
def ofEntry (type : LogicalType) : Wrapper :=
  match type.parent with
  | some parent => ⟨type.name, .parent parent⟩
  | none => ⟨type.name, .handle type.storage⟩

/-- The members of a wrapper that holds a handle: constructors that pass their value on to
`base`, assignments and conversions. -/
def memberLines (name base : Text) : List Line :=
  let scalars : List Text := ["int", "DWORD"]
  scalars.map (fun s => ⟨1, name ++ "(" ++ s ++ " i): " ++ base ++ "(i)\x7b\x7d"⟩) ++
  scalars.map (fun s => ⟨1, name ++ "&operator=(" ++ s ++ " i) \x7b id = i; return *this; \x7d"⟩) ++
  scalars.map (fun s => ⟨1, "operator " ++ s ++ "() \x7b return id; \x7d"⟩)

/-- The lines that define a wrapper. -/
def lines (w : Wrapper) : List Line :=
  let name := wrapperOf w.type
  match w.base with
  | .handle storage =>
    [⟨0, "struct " ++ name ++ "\x7b"⟩, ⟨1, storage ++ " id=0;"⟩] ++ memberLines name "id" ++
      [⟨0, "\x7d;"⟩]
  | .parent type =>
    [⟨0, "struct " ++ name ++ ":" ++ wrapperOf type ++ "\x7b"⟩] ++
      memberLines name (wrapperOf type) ++ [⟨0, "\x7d;"⟩]
  | .empty => [⟨0, "struct " ++ name ++ "\x7b\x7d;"⟩]

end Wrapper

/-- The wrappers of all types: the registered ones, parents first, and the empty ones. -/
def wrappers (table : TypeTable) (namespaceTypes : List Text) : List Wrapper :=
  table.entries.map Wrapper.ofEntry ++ namespaceTypes.map (⟨·, .empty⟩)

/-- The header that defines wrappers. -/
def wrapperHeader (ws : List Wrapper) : Text :=
  render ([banner, ⟨0, "#include \"scripthook/types.h\""⟩] ++ ws.flatMap Wrapper.lines)

end HeaderBindings.Binding
