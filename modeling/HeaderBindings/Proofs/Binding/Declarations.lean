import HeaderBindings.Proofs.Binding.Blocks
import HeaderBindings.Proofs.Header.Head

/-! # Declarations in generated code

The generated code defines a structure for every type and declares, for every type, a hook and
a handle and calls the hook. Such lines are told by how they start. Where types are names, each
piece of the code has one such line, for the type that the piece is about. -/

namespace HeaderBindings.Binding

open List Text Header

/-! ## Kinds of lines -/

/-- The declaration of a handle, with the handle of the parent if there is one. -/
def handleLine (type : Text) (parent? : Option Text) : Line :=
  ⟨1, "py::class_<" ++ wrapperOf type ++ "> " ++ ClassBlock.handle type ++ "(m, \"" ++ type ++
    "\"" ++ (match parent? with
      | some parent => "," ++ ClassBlock.handle parent
      | none => []) ++ ");"⟩

section

variable {α : Type} {mark : Text → Line → Bool} {key : α → Text} {piece : α → List Line}
  {opening closing : List Line} {items : List α} {type : Text}

end

/-! ## The header -/

variable {type : Text}

variable {b : ClassBlock}

theorem declarationLines_eq (b : ClassBlock) :
    b.declarationLines = handleLine b.type b.parent ::
      if b.isHandle then [⟨1, ClassBlock.handle b.type ++ ".def(\"__bool__\", [](" ++
        wrapperOf b.type ++ " t)\x7breturn (BOOL)t.id;\x7d);"⟩] else [] := by
  rw [ClassBlock.declarationLines]
  cases b.isHandle <;> rfl

variable {bindings : NativeBindings}

end HeaderBindings.Binding
