import HeaderBindings.Identifier
import HeaderBindings.Span
import HeaderBindings.Text.Blank

/-! Native functions as a header declares them. -/

namespace HeaderBindings

/-- A parameter: its type with the pointer and reference markers, and its name. -/
structure Parameter where
  type : Text
  name : Text
deriving DecidableEq, Repr

/-- Whether the type ends in a pointer marker. -/
def Parameter.isPointer (p : Parameter) : Bool := p.type.getLast? == some '*'

/-- A native function in a namespace block. The span reaches from the keyword to the end of the
body. -/
structure NativeFunction where
  scope : Text
  result : Text
  name : Text
  params : List Parameter
  span : Span := ⟨0, 0⟩
deriving DecidableEq, Repr

namespace NativeFunction

/-- The function's name within its namespace, joined by two colons. -/
def qualifiedName (d : NativeFunction) : Text := d.scope ++ "::" ++ d.name

/-- The logical type that the namespace stands for. -/
def typeName (d : NativeFunction) : Text := Identifier.typeOfNamespace d.scope

end NativeFunction

/-- Removes each blank right before the marker. -/
def closeUp (marker : Char) : Text → Text
  | [] => []
  | c :: rest =>
    if c = ' ' ∧ rest.head? = some marker then closeUp marker rest else c :: closeUp marker rest

/-- The normal form of a type: words with single blanks between them and no blank before a
pointer or reference marker, so that `const  char *` becomes `const char*`. -/
def typeSpelling (type : Text) : Text :=
  closeUp '&' (closeUp '*' ([' '].intercalate (Text.words type)))

end HeaderBindings
