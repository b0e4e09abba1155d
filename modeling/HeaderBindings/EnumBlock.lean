import HeaderBindings.Identifier
import HeaderBindings.Span
import HeaderBindings.Text.Pieces

/-! Enumerations and the names under which their entries are bound. -/

namespace HeaderBindings

/-- An entry of an enumeration. Its value is never evaluated; bindings name the entry. -/
structure EnumEntry where
  name : Text
  hasValue : Bool
  exposed : Text
deriving DecidableEq, Repr

/-- An enumeration with its entries in source order. -/
structure EnumBlock where
  name : Text
  entries : List EnumEntry
  span : Span := ⟨0, 0⟩
deriving DecidableEq, Repr

namespace EnumBlock

/-- The name under which an entry is bound: the enumeration's own name is removed from the
front, as written or in underscore form, and the rest goes to lower-case underscore form without
leading underscores. If nothing would remain, the whole entry name is used. -/
def boundName (enumName entry : Text) : Text :=
  let snake := Identifier.snakeCase (Text.dropStart enumName entry)
  let own := Identifier.snakeCase enumName ++ "_"
  let short := (Text.dropStart own snake).dropWhile (· == '_')
  if short.isEmpty then Identifier.snakeCase entry else short

end EnumBlock

end HeaderBindings
