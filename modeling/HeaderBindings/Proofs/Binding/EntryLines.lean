import HeaderBindings.Binding.NativeCode
import HeaderBindings.Proofs.Binding.Coverage

/-! # Lines of entries

The text of an entry: a registration of the group of the entry under its exposed name, around the
texts of its lambdas. The text of a lambda: what it takes, what it returns, and the call of its
native. -/

namespace HeaderBindings.Binding

/-! ## Texts of lambdas -/

/-- A lambda that takes what is declared and returns what the callee gives for the arguments. -/
def lambdaText (declarations : List Text) (result callee : Text) (arguments : List Text) : Text :=
  "[](" ++ [','].intercalate declarations ++ ") -> " ++ result ++ " \x7b return " ++ callee ++
    "(" ++ [','].intercalate arguments ++ "); \x7d"

/-- The text is a lambda that calls the callee, with one argument for each of its parameters. -/
def Calls (callee text : Text) : Prop :=
  ∃ declarations result arguments, arguments.length = declarations.length ∧
    text = lambdaText declarations result callee arguments

theorem Lambda.code_eq_lambdaText (call : Lambda) :
    call.code = lambdaText (call.params.map (·.declaration)) call.result call.native
      (call.params.map (·.argument)) := by
  unfold Lambda.code lambdaText
  rfl

theorem Lambda.calls_code (call : Lambda) : Calls call.native call.code := by
  refine ⟨_, _, _, ?_, call.code_eq_lambdaText⟩
  rw [List.length_map, List.length_map]

/-- The lambda of a member calls the native that the member was declared as. -/
theorem calls_of_lambda?_eq_some {mapping : TypeMapping} {type : Text} {m : Member}
    {call : Lambda} (h : lambda? mapping type m = some call) :
    Calls m.function.qualifiedName call.code :=
  native_of_lambda?_eq_some h ▸ call.calls_code

/-! ## Texts of entries -/

/-- What kind of registration an entry is. -/
inductive EntryGroup where
  | constructors
  | properties
  | setters
  | methods
  | statics
deriving DecidableEq, Repr

/-- What the attributes of a group have before the exposed names. -/
def EntryGroup.start : EntryGroup → Text
  | setters => "set_"
  | _ => []

namespace Entry

/-- The group of an entry. -/
def group : Entry → EntryGroup
  | constructor _ => .constructors
  | property _ _ _ | readonly _ _ => .properties
  | setter _ _ => .setters
  | method _ _ => .methods
  | static _ _ => .statics

/-- The exposed name of an entry, without the start that a plain setter gets. -/
def exposed : Entry → Text
  | constructor _ => []
  | property name _ _ | readonly name _ | setter name _ | method name _ | static name _ => name

end Entry

/-- The text registers lambdas under a name, in the way of a group. -/
inductive Registers : EntryGroup → Text → List Text → Text → Prop where
  | constructor (type : Text) :
      Registers .constructors [] [] (".def(py::init<" ++ type ++ ">())")
  | property (name getter setter : Text) :
      Registers .properties name [getter, setter]
        (".def_property(\"" ++ name ++ "\", " ++ getter ++ ", " ++ setter ++ ")")
  | readonly (name getter : Text) :
      Registers .properties name [getter]
        (".def_property_readonly(\"" ++ name ++ "\", " ++ getter ++ ")")
  | setter (name setter : Text) :
      Registers .setters name [setter] (".def(\"set_" ++ name ++ "\", " ++ setter ++ ")")
  | method (name lambda : Text) :
      Registers .methods name [lambda] (".def(\"" ++ name ++ "\", " ++ lambda ++ ")")
  | static (name lambda : Text) :
      Registers .statics name [lambda] (".def_static(\"" ++ name ++ "\", " ++ lambda ++ ")")

/-- The code of the entry registers its lambdas under its name, in the way of the group. -/
def Entry.Written (e : Entry) (g : EntryGroup) : Prop :=
  Registers g e.exposed (e.lambdas.map Lambda.code) e.code

theorem Entry.written (e : Entry) : e.Written e.group := by
  cases e with
  | constructor type => exact .constructor type
  | property name getter setter => exact .property name getter.code setter.code
  | readonly name getter => exact .readonly name getter.code
  | setter name call => exact .setter name call.code
  | method name call => exact .method name call.code
  | static name call => exact .static name call.code

theorem Registers.ne_nil {g : EntryGroup} {name : Text} {lambdas : List Text} {text : Text}
    (h : Registers g name lambdas text) : text ≠ [] := by
  cases h <;> simp

/-- The text of a registration among those of its class. -/
def entryText (code : Text) : Text := "\t\t" ++ code ++ "\n"

theorem Entry.render_code (e : Entry) : Line.render ⟨2, e.code⟩ = entryText e.code := by
  rw [render_of_ne_nil e.written.ne_nil]
  rfl

/-! ## Texts of classes -/

/-- The text of a class with the given registrations: what declares it comes first, and the call
of its hook last. -/
def classText (declaration type : Text) (codes : List Text) : Text :=
  declaration ++ "\tpy_" ++ type ++ "\n" ++ codes.flatMap entryText ++
    "\t;\n\tcustom(py_" ++ type ++ ");\n"

theorem ClassBlock.render_lines (block : ClassBlock) :
    render block.lines =
      classText (render block.declarationLines) block.type (block.body.entries.map Entry.code) := by
  have hentries : render (block.body.entries.map fun e => ⟨2, e.code⟩) =
      (block.body.entries.map Entry.code).flatMap entryText := by
    rw [render, List.flatMap_map, List.flatMap_map]
    simp only [Entry.render_code]
  rw [ClassBlock.lines, render_append, render_append, render_append, hentries]
  simp [classText, Line.render, ClassBlock.handle, List.append_assoc]

/-- The text of a class has a registration for each of its entries. -/
structure ClassBlock.Written (block : ClassBlock) : Prop where
  lines_eq : block.lines =
    block.declarationLines ++ [⟨1, "py_" ++ block.type⟩] ++
      block.body.entries.map (fun e => ⟨2, e.code⟩) ++
      [⟨1, ";"⟩, ⟨1, "custom(" ++ ("py_" ++ block.type) ++ ");"⟩]
  text_eq : render block.lines =
    classText (render block.declarationLines) block.type (block.body.entries.map Entry.code)
  entries_written : ∀ e ∈ block.body.entries, e.Written e.group

theorem ClassBlock.written (block : ClassBlock) : block.Written where
  lines_eq := rfl
  text_eq := block.render_lines
  entries_written e _ := e.written

end HeaderBindings.Binding
