import HeaderBindings.Text.Basic
import HeaderBindings.Text.Table.Word

/-! The characters of names. Header scanning knows ASCII names only; the search for mentions of
natives in hand-written sources also needs the word characters of Unicode, to see where a name
is the tail of a longer word. -/

namespace HeaderBindings.Text

/-- ASCII letters, ASCII digits and the underscore. -/
def isNameChar (c : Char) : Bool := c.isAlphanum || c == '_'

/-- The characters that Unicode counts as parts of words. -/
def isWordChar (c : Char) : Bool :=
  if c.toNat < 128 then isNameChar c else Table.covers Table.wordRanges c

theorem isWordChar_of_isNameChar {c : Char} (h : isNameChar c = true) : isWordChar c = true := by
  have hsmall : c.toNat < 128 := by
    delta isNameChar Char.isAlphanum Char.isAlpha Char.isUpper Char.isLower Char.isDigit at h
    simp only [Bool.or_eq_true, Bool.and_eq_true, decide_eq_true_eq, beq_iff_eq] at h
    have hval : c.toNat = c.val.toNat := rfl
    rcases h with ((⟨h1, h2⟩ | ⟨h1, h2⟩) | ⟨h1, h2⟩) | rfl
    · have := UInt32.le_iff_toNat_le.1 h2; simp at this; omega
    · have := UInt32.le_iff_toNat_le.1 h2; simp at this; omega
    · have := UInt32.le_iff_toNat_le.1 h2; simp at this; omega
    · decide
  simp [isWordChar, hsmall, h]

end HeaderBindings.Text
