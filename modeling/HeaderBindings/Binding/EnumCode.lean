import HeaderBindings.Binding.Lines
import HeaderBindings.EnumBlock

/-! The registration of enumerations. Every value is bound by its name in the header, so the
compiler of the bindings supplies the number. -/

namespace HeaderBindings.Binding

/-- The lines of one enumeration. -/
def enumLines (e : EnumBlock) : List Line :=
  [⟨1, "py::enum_<" ++ e.name ++ ">(m, \"" ++ e.name ++ "\")"⟩] ++
  e.entries.map (fun entry =>
    ⟨2, ".value(\"" ++ entry.exposed ++ "\"," ++ e.name ++ "::" ++ entry.name ++ ")"⟩) ++
  [⟨1, ";"⟩]

/-- The code that registers enumerations. -/
def enumCode (enums : List EnumBlock) : Text :=
  render <|
    [banner, ⟨0, "#include \"pybind11/pybind11.h\""⟩, ⟨0, "#include \"scripthook/enums.h\""⟩,
      ⟨0, ""⟩, ⟨0, "namespace py = pybind11;"⟩, ⟨0, ""⟩,
      ⟨0, "void defEnums(py::module m) \x7b"⟩] ++
    enums.flatMap enumLines ++
    [⟨0, "\x7d"⟩]

end HeaderBindings.Binding
