import HeaderBindings.Text.Pieces

/-! White space, trimming and words. The white space of this library is the `White_Space`
property of the Unicode standard, which holds more than the ASCII blanks. -/

namespace HeaderBindings.Text

/-- The characters with the Unicode property `White_Space`. -/
def isBlank (c : Char) : Bool :=
  let n := c.toNat
  (9 ≤ n && n ≤ 13) || n == 0x20 || n == 0x85 || n == 0xA0 || n == 0x1680 ||
  (0x2000 ≤ n && n ≤ 0x200A) || n == 0x2028 || n == 0x2029 || n == 0x202F || n == 0x205F ||
  n == 0x3000

/-- A text without its leading white space. -/
def trimStart (t : Text) : Text := t.dropWhile isBlank

/-- A text without its trailing white space. -/
def trimEnd (t : Text) : Text := (splitTrailing isBlank t).1

/-- A text without white space at either end. -/
def trim (t : Text) : Text := trimEnd (trimStart t)

/-- The maximal runs of other characters between white space. -/
def words (t : Text) : List Text := (pieces isBlank t).filter (!·.isEmpty)

/-- A text split around its last white space character. -/
def splitAtLastBlank? (t : Text) : Option (Text × Text) :=
  let (start, last) := splitTrailing (!isBlank ·) t
  if start.isEmpty then none else some (start.dropLast, last)

end HeaderBindings.Text
