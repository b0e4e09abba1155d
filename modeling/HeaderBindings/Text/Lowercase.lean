import HeaderBindings.Text.Basic
import HeaderBindings.Text.Table.Cased
import HeaderBindings.Text.Table.Lowercase

/-! Lower case by the Unicode standard. Two capitals need more than the table: the dotted I
becomes two characters, and sigma takes its final form at the end of a word. -/

namespace HeaderBindings.Text

/-- The small letters of one character, whatever stands around it. -/
def smallLetters (c : Char) : Text :=
  if c.toNat < 128 then [c.toLower]
  else if c = 'İ' then ['i', '\u0307']
  else match Table.caseRuns.findSome? (·.small? c.toNat) with
    | some n => [Char.ofNat n]
    | none => [c]

/-- Whether the first character that case rules do not look past has a case. -/
def nextHasCase (t : Text) : Bool :=
  match t.dropWhile (Table.covers Table.caseIgnorableRanges) with
  | [] => false
  | c :: _ => Table.covers Table.casedRanges c

/-- Lower case of a text that follows `before`, which is given in reverse. -/
def lowercaseAfter (before : Text) : Text → Text
  | [] => []
  | c :: rest =>
    let small :=
      if c = 'Σ' then if nextHasCase before && !nextHasCase rest then ['ς'] else ['σ']
      else smallLetters c
    small ++ lowercaseAfter (c :: before) rest

/-- A text in lower case. -/
def lowercase (t : Text) : Text := lowercaseAfter [] t

/-- On ASCII text the lower case is taken letter by letter. -/
theorem lowercase_of_ascii {t : Text} (h : ∀ c ∈ t, c.toNat < 128) :
    lowercase t = t.map Char.toLower := by
  suffices ∀ before, lowercaseAfter before t = t.map Char.toLower from this []
  induction t with
  | nil => intro before; rfl
  | cons c rest ih =>
      intro before
      have hc : c.toNat < 128 := h c (by simp)
      have hne : c ≠ 'Σ' := by
        rintro rfl
        exact absurd hc (by decide)
      simp [lowercaseAfter, hne, smallLetters, hc, ih (fun d hd => h d (by simp [hd]))]

end HeaderBindings.Text
