import HeaderBindings.Header.Cursor
import HeaderBindings.Proofs.Header.Nesting
import HeaderBindings.Proofs.Outcome

/-! # A cursor amid text

A cursor that stands between characters is given by the text before it, the text of its range
and the text after the range. On such a cursor no operation cuts badly, and each one moves the
boundary between the first two texts. -/

namespace HeaderBindings.Header.Cursor

open List Text

/-- The cursor between two texts, with more text behind its range. -/
def amid (before rest after : Text) : Cursor :=
  ⟨before ++ rest ++ after, size before, size before + size rest⟩

theorem ofText_eq_amid (t : Text) : ofText t = amid [] t [] := by
  simp [ofText, amid]

variable (before rest after : Text)

@[simp] theorem text_amid : (amid before rest after).text = before ++ rest ++ after := rfl

@[simp] theorem pos_amid : (amid before rest after).pos = size before := rfl

@[simp] theorem rest_amid : (amid before rest after).rest = .ok rest :=
  slice_append before rest after

@[simp] theorem remaining_amid : (amid before rest after).remaining = size rest :=
  Nat.add_sub_cancel_left (size before) (size rest)

theorem remaining_amid_lt {before rest after part left : Text} (h : rest = part ++ left)
    (hpart : part ≠ []) :
    (amid (before ++ part) left after).remaining < (amid before rest after).remaining := by
  have hpos := size_pos_of_ne_nil hpart
  rw [remaining_amid, remaining_amid, h, size_append]
  omega

theorem slice_amid (part : Text) :
    slice (size before) (size before + size part) (amid (before ++ part) rest after).text =
      .ok part :=
  slice_eq_ok before part (rest ++ after) (List.append_assoc (before ++ part) rest after) rfl rfl

theorem slice_amid_behind_mark {c : Char} (hc : c.utf8Size = 1) (part : Text) :
    slice (size before + 1) (size before + c.utf8Size + size part)
      (amid before (c :: (part ++ rest)) after).text = .ok part := by
  have hslice := slice_behind_mark hc before part (rest ++ after)
  simpa only [text_amid, List.append_assoc, List.cons_append] using hslice

theorem advance_amid (part : Text) :
    (amid before (part ++ rest) after).advance (size part) =
      amid (before ++ part) rest after := by
  simp [amid, advance, Nat.add_assoc]

@[simp] theorem peek_amid : (amid before rest after).peek = .ok rest.head? := by
  rw [peek, rest_amid]
  rfl

variable {before rest after}

theorem skipBlanks_amid {gap : Text} (hgap : ∀ c ∈ gap, isBlank c = true)
    (hrest : ∀ c ∈ rest.head?, isBlank c = false) :
    (amid before (gap ++ rest) after).skipBlanks = .ok (amid (before ++ gap) rest after) := by
  rw [skipBlanks, rest_amid, ← advance_amid before rest after gap]
  simp only [ok_bind, pure_eq_ok, takeWhile_append_of_head? hgap hrest]

theorem name_amid {word : Text} (hne : word ≠ []) (hword : ∀ c ∈ word, isNameChar c = true)
    (hrest : ∀ c ∈ rest.head?, isNameChar c = false) :
    (amid before (word ++ rest) after).name =
      .ok (some (word, .between (size before) (size before + size word)),
        amid (before ++ word) rest after) := by
  rw [name, rest_amid, ← advance_amid before rest after word]
  simp only [ok_bind, pure_eq_ok, takeWhile_append_of_head? hword hrest,
    List.isEmpty_iff, if_neg hne]
  rfl

theorem upToAny_amid {targets : List Char} {part : Text} {c : Char}
    (h : upToTarget? targets 0 (part ++ rest) = some (part, c)) :
    (amid before (part ++ rest) after).upToAny targets =
      .ok (some (c, size before + size part), amid (before ++ part) rest after) := by
  rw [upToAny, rest_amid, ← advance_amid before rest after part]
  simp only [ok_bind, pure_eq_ok, h]
  rfl

/-! ## Keywords -/

/-- A search sees the range only, and the character before it. -/
theorem passKeyword_amid (keyword : Text) (hrest : rest ≠ []) :
    (amid before rest after).passKeyword keyword =
      match offsetOfKeyword? keyword 0 before.getLast? rest with
      | some offset => .ok (some (size before + offset),
          { amid before rest after with pos := size before + offset + size keyword })
      | none => .ok (none, amid (before ++ rest) [] after) := by
  obtain ⟨c, tail, rfl⟩ := List.exists_cons_of_ne_nil hrest
  have hc := one_le_utf8Size c
  have hstop : ¬ size before + (c.utf8Size + size tail) ≤ size before := by omega
  have htext : ¬ size before + (c.utf8Size + size tail + size after) <
      size before + (c.utf8Size + size tail) := by omega
  have hsplit : splitFrom (size before) (before ++ (c :: tail ++ after)) =
      (before, c :: tail ++ after) := splitFrom_append before _
  have hwithin : within (c.utf8Size + size tail) (c :: tail ++ after) = c :: tail :=
    within_append (c :: tail) after
  simp only [passKeyword, amid, size_append, size_cons, if_neg hstop, if_neg htext,
    List.append_assoc, hsplit, Nat.add_sub_cancel_left, hwithin]
  cases offsetOfKeyword? keyword 0 before.getLast? (c :: tail) with
  | none => simp
  | some offset => rfl

/-- The keyword is passed, together with the gap before it. -/
theorem passKeyword_amid_of_gap {keyword gap : Text}
    (hkeyword : keyword.head?.any isNameChar = true) (hgap : IsGap gap)
    (hbefore : separatesWords (gap.getLast?.or before.getLast?) = true)
    (hrest : separatesWords rest.head? = true) :
    (amid before (gap ++ (keyword ++ rest)) after).passKeyword keyword =
      .ok (some (size before + size gap), amid (before ++ gap ++ keyword) rest after) := by
  have hne : gap ++ (keyword ++ rest) ≠ [] := by simp [ne_nil_of_head?_any hkeyword]
  rw [passKeyword_amid _ hne, offsetOfKeyword?_gap_append hkeyword hgap hbefore hrest]
  simp [amid, Nat.add_assoc]

theorem passKeyword_amid_gap {keyword gap : Text}
    (hkeyword : keyword.head?.any isNameChar = true) (hgap : IsGap gap) :
    (amid before gap after).passKeyword keyword = .ok (none, amid (before ++ gap) [] after) := by
  by_cases h : gap = []
  · subst h
    simp [passKeyword, amid]
  · rw [passKeyword_amid _ h, offsetOfKeyword?_gap hkeyword hgap]

/-! ## Blocks -/

theorem block_amid {opening closing : Char} (hne : opening ≠ closing) {inside : Text}
    (h : Balanced opening closing inside) :
    (amid before (opening :: (inside ++ closing :: rest)) after).block opening closing =
      .ok (.ok (size before, size before + opening.utf8Size + size inside),
        amid (before ++ opening :: (inside ++ [closing])) rest after) := by
  rw [block, rest_amid]
  simp only [ok_bind, pure_eq_ok, ne_eq, not_true_eq_false, if_false,
    blockInside?_of_balanced hne h rest]
  simp [amid, Nat.add_assoc]

theorem inside_amid {opening : Char} (hopening : opening.utf8Size = 1) (closing : Char)
    (inside : Text) :
    (⟨(amid before (opening :: (inside ++ closing :: rest)) after).text, size before + 1,
        size before + opening.utf8Size + size inside⟩ : Cursor) =
      amid (before ++ [opening]) inside (closing :: (rest ++ after)) := by
  simp [amid, hopening]

end HeaderBindings.Header.Cursor
