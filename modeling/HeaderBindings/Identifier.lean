import HeaderBindings.Text.Lowercase

/-! Conversion of identifiers between conventions. -/

namespace HeaderBindings.Identifier

/-- An ASCII capital or an ASCII digit may follow without a break, a small letter may not. -/
def isSmallOrDigit (c : Char) : Bool := c.isLower || c.isDigit

/-- Puts an underscore before each capital that starts a word of small letters, where anything
but a newline stands before the capital. A word found this way is passed over whole: its last
letter does not count as what stands before the next capital. -/
def breakBeforeWords : Text → Text
  | [] => []
  | [c] => [c]
  | c :: capital :: rest =>
    let word := rest.takeWhile Char.isLower
    if c != '\n' && capital.isUpper && !word.isEmpty then
      c :: '_' :: capital :: (word ++ breakBeforeWords (rest.dropWhile Char.isLower))
    else c :: breakBeforeWords (capital :: rest)
termination_by t => t.length
decreasing_by
  · have : (rest.dropWhile Char.isLower).length ≤ rest.length :=
      (List.dropWhile_suffix _).length_le
    simp only [List.length_cons]
    omega
  · simp

/-- Puts an underscore between a small letter or digit and the capital right after it. -/
def breakBeforeCapitals : Text → Text
  | c :: capital :: rest =>
    if isSmallOrDigit c && capital.isUpper then
      c :: '_' :: breakBeforeCapitals (capital :: rest)
    else c :: breakBeforeCapitals (capital :: rest)
  | t => t

/-- Lower-case underscore form of an identifier: `VehicleClassSedan` and `VEHICLE_CLASS_SEDAN`
both give `vehicle_class_sedan`. -/
def snakeCase (identifier : Text) : Text :=
  Text.lowercase (breakBeforeCapitals (breakBeforeWords identifier))

/-- The logical type of a namespace: the first character as it is, the others in lower case, so
that `PED` gives `Ped`. -/
def typeOfNamespace : Text → Text
  | [] => []
  | first :: rest => first :: Text.lowercase rest

end HeaderBindings.Identifier
