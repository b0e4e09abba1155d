import HeaderBindings.Binding.ClassBody
import HeaderBindings.Binding.Wrappers
import HeaderBindings.Classification

/-! The registration of natives: a class for every registered type, parents first, and for every
type that is a namespace only, in ascending order. -/

namespace HeaderBindings.Binding

/-- The class that is registered for a type. -/
structure ClassBlock where
  type : Text
  parent : Option Text := none
  /-- The type is registered, so its wrapper holds a handle. -/
  isHandle : Bool
  body : ClassBody
deriving DecidableEq, Repr

namespace ClassBlock

/-- The variable that stands for the class while it is registered. -/
def handle (type : Text) : Text := "py_" ++ type

/-- The lines that declare the class. -/
def declarationLines (b : ClassBlock) : List Line :=
  let wrapper := wrapperOf b.type
  let parent : Text := match b.parent with
    | some parent => "," ++ handle parent
    | none => []
  let start : Line :=
    ⟨1, "py::class_<" ++ wrapper ++ "> " ++ handle b.type ++ "(m, \"" ++ b.type ++ "\"" ++
      parent ++ ");"⟩
  if b.isHandle then
    [start, ⟨1, handle b.type ++ ".def(\"__bool__\", [](" ++ wrapper ++
      " t)\x7breturn (BOOL)t.id;\x7d);"⟩]
  else [start]

/-- The lines of a class: its declaration, its entries and the call of its hook. -/
def lines (b : ClassBlock) : List Line :=
  b.declarationLines ++ [⟨1, handle b.type⟩] ++ b.body.entries.map (fun e => ⟨2, e.code⟩) ++
    [⟨1, ";"⟩, ⟨1, "custom(" ++ handle b.type ++ ");"⟩]

end ClassBlock

/-- The class of a registered type. -/
def registeredClass (mapping : TypeMapping) (types : List TypeMembers) (type : LogicalType) :
    ClassBlock :=
  let members : ClassBody := match Keyed.find? TypeMembers.typeName type.name types with
    | some found => classBody mapping type.name found
    | none => {}
  { type := type.name, parent := type.parent, isHandle := true,
    body := { entries := type.init.toList.map .constructor } ++ members }

/-- The class of a type that is a namespace only. -/
def namespaceClass (mapping : TypeMapping) (types : List TypeMembers) (type : Text) : ClassBlock :=
  { type, isHandle := false,
    body := match Keyed.find? TypeMembers.typeName type types with
      | some found => classBody mapping type found
      | none => {} }

/-- The types that occur as namespaces but are not registered, ascending. -/
def namespaceTypes (mapping : TypeMapping) (c : Classification) : List Text :=
  mapping.table.unregistered (c.types.map (·.typeName))

/-- Everything that is generated for natives: the wrappers, the types whose hooks are declared,
ascending, and the classes in the order in which they are registered. -/
structure NativeBindings where
  wrappers : List Wrapper
  hooks : List Text
  classes : List ClassBlock
deriving DecidableEq, Repr

/-- The bindings of a classification. -/
def nativeBindings (mapping : TypeMapping) (c : Classification) : NativeBindings :=
  let empty := namespaceTypes mapping c
  { wrappers := wrappers mapping.table empty
    hooks := Keyed.ofList id (mapping.table.names ++ empty)
    classes :=
      mapping.table.entries.map (registeredClass mapping c.types) ++
      empty.map (namespaceClass mapping c.types) }

namespace NativeBindings

/-- The members that need manual wrapping, in the order of the classes. -/
def failed (b : NativeBindings) : List Member := b.classes.flatMap (·.body.failed)

/-- The lambdas of all classes, in order. -/
def lambdas (b : NativeBindings) : List Lambda :=
  b.classes.flatMap fun block => block.body.entries.flatMap Entry.lambdas

end NativeBindings

/-- The registration of a type whose fields interleave with padding, so it is written by
hand. -/
def vectorBinding : Text :=
  "py::class_<Vector3>(m, \"Vector3\")" ++
  ".def(\"__init__\", [](Vector3 &self, float x, float y, float z) " ++
  "\x7bnew (&self) Vector3\x7b x, 0, y, 0, z, 0 \x7d; \x7d)" ++
  ".def_readwrite(\"x\", &Vector3::x)" ++
  ".def_readwrite(\"y\", &Vector3::y)" ++
  ".def_readwrite(\"z\", &Vector3::z);"

/-- The line that declares the hook of a type, which adds what is written by hand. -/
def hookLine (type : Text) : Line :=
  ⟨0, "void custom(py::class_<" ++ wrapperOf type ++ ">);"⟩

/-- The code that registers classes. -/
def registrationCode (b : NativeBindings) : Text :=
  render <|
    [banner, ⟨0, "#include \"pybind11/pybind11.h\""⟩, ⟨0, "#include \"scripthook/natives.h\""⟩,
      ⟨0, "#include \"natives_type.h\""⟩, ⟨0, "namespace py = pybind11;"⟩, ⟨0, ""⟩] ++
    b.hooks.map hookLine ++
    [⟨0, ""⟩, ⟨0, "void defNatives(py::module m) \x7b"⟩, ⟨1, vectorBinding⟩] ++
    b.classes.flatMap ClassBlock.lines ++
    [⟨0, "\x7d"⟩]

/-- The generated texts for natives, and the qualified names of the functions that need
manual wrapping. -/
structure NativeCode where
  wrapperHeader : Text
  registrations : Text
  failed : List Text
deriving DecidableEq, Repr

/-- The texts of bindings. -/
def NativeBindings.code (b : NativeBindings) : NativeCode where
  wrapperHeader := Binding.wrapperHeader b.wrappers
  registrations := registrationCode b
  failed := b.failed.map (·.function.qualifiedName)

/-- Generates the code for a classification. -/
def nativeCode (mapping : TypeMapping) (c : Classification) : NativeCode :=
  (nativeBindings mapping c).code

end HeaderBindings.Binding
