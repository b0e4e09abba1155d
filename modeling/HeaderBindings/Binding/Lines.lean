import HeaderBindings.Text.Basic

/-! Generated code as indented lines. -/

namespace HeaderBindings.Binding

/-- A line of generated code and the number of tabs before it. -/
structure Line where
  indent : Nat
  code : Text
deriving DecidableEq, Repr

/-- A line with its tabs and its newline; an empty line has no tabs. -/
def Line.render (line : Line) : Text :=
  (if line.code.isEmpty then [] else List.replicate line.indent '\t' ++ line.code) ++ "\n"

/-- A text made of lines. -/
def render (lines : List Line) : Text := lines.flatMap Line.render

@[simp] theorem render_nil : render [] = [] := rfl

@[simp] theorem render_cons (line : Line) (lines : List Line) :
    render (line :: lines) = line.render ++ render lines := rfl

@[simp] theorem render_append (first later : List Line) :
    render (first ++ later) = render first ++ render later := List.flatMap_append

theorem render_of_ne_nil {code : Text} (h : code ≠ []) (indent : Nat) :
    Line.render ⟨indent, code⟩ = List.replicate indent '\t' ++ code ++ "\n" := by
  rw [Line.render, if_neg (by simpa using h)]

/-- The first line of every generated file. -/
def banner : Line := ⟨0, "// This file is auto-generated, do NOT edit!"⟩

end HeaderBindings.Binding
