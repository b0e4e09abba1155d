import HeaderBindings.Header.Functions
import HeaderBindings.Proofs.Header.Cursor
import HeaderBindings.Proofs.Header.Words

/-! # Where a cursor moves

What the operations of a cursor amid text do in every case, and not only on text of a known
shape. An operation that finds nothing leaves the cursor or moves it to the end of its range. -/

namespace HeaderBindings.Header.Cursor

open List Text

variable {before rest after part keyword : Text} {opening closing : Char}

/-! ## Keywords -/

theorem passKeyword_amid_of_eq_some (hkeyword : keyword.head?.any isNameChar = true)
    (h : upToWordAt? keyword braceDepthAfter 0 before.getLast? (part ++ (keyword ++ rest)) =
      some part) :
    (amid before (part ++ (keyword ++ rest)) after).passKeyword keyword =
      .ok (some (size before + size part), amid (before ++ part ++ keyword) rest after) := by
  have hne : part ++ (keyword ++ rest) ≠ [] := by simp [ne_nil_of_head?_any hkeyword]
  rw [passKeyword_amid _ hne, offsetOfKeyword?_eq_map_size hkeyword, h]
  simp [amid, Nat.add_assoc]

theorem passKeyword_amid_of_eq_none (hkeyword : keyword.head?.any isNameChar = true)
    (h : upToWordAt? keyword braceDepthAfter 0 before.getLast? rest = none) :
    (amid before rest after).passKeyword keyword =
      .ok (none, amid (before ++ rest) [] after) := by
  by_cases hrest : rest = []
  · subst hrest
    simp [passKeyword, amid]
  · rw [passKeyword_amid _ hrest, offsetOfKeyword?_eq_map_size hkeyword, h]
    rfl

theorem splitFrom_amid :
    splitFrom (size before) (amid before rest after).text = (before, rest ++ after) := by
  rw [text_amid, List.append_assoc, splitFrom_append]

theorem seekWord_amid_of_eq_some (hne : keyword ≠ [])
    (hkeyword : ∀ c ∈ keyword, isNameChar c = true)
    (h : upToWordAt? keyword sameDepth 0 before.getLast? (part ++ rest) = some part) :
    (amid before (part ++ rest) after).seekWord keyword =
      .ok (true, amid (before ++ part) rest after) := by
  rw [seekWord, rest_amid, ← advance_amid, pos_amid, splitFrom_amid]
  simp only [ok_bind, pure_eq_ok, upToWord?_eq_upToWordAt? hne hkeyword, h]

theorem seekWord_amid_of_eq_none (hne : keyword ≠ [])
    (hkeyword : ∀ c ∈ keyword, isNameChar c = true)
    (h : upToWordAt? keyword sameDepth 0 before.getLast? rest = none) :
    (amid before rest after).seekWord keyword =
      .ok (false, amid (before ++ rest) [] after) := by
  rw [seekWord, rest_amid, pos_amid, splitFrom_amid]
  simp only [ok_bind, pure_eq_ok, upToWord?_eq_upToWordAt? hne hkeyword, h]
  simp [amid]

theorem passWord_amid_of_eq_some (hne : keyword ≠ [])
    (hkeyword : ∀ c ∈ keyword, isNameChar c = true)
    (h : upToWordAt? keyword sameDepth 0 before.getLast? (part ++ (keyword ++ rest)) =
      some part) :
    (amid before (part ++ (keyword ++ rest)) after).passWord keyword =
      .ok (some (size (before ++ part)), amid (before ++ part ++ keyword) rest after) := by
  rw [passWord, seekWord_amid_of_eq_some hne hkeyword h, ok_bind]
  simp only [pos_amid, advance_amid, pure_eq_ok]

theorem passWord_amid_of_eq_none (hne : keyword ≠ [])
    (hkeyword : ∀ c ∈ keyword, isNameChar c = true)
    (h : upToWordAt? keyword sameDepth 0 before.getLast? rest = none) :
    (amid before rest after).passWord keyword = .ok (none, amid (before ++ rest) [] after) := by
  rw [passWord, seekWord_amid_of_eq_none hne hkeyword h]
  rfl

/-! ## Marks -/

theorem accept_amid (c : Char) (before rest after : Text) :
    (amid before (c :: rest) after).accept c = .ok (true, amid (before ++ [c]) rest after) := by
  have hadvance : (amid before (c :: rest) after).advance c.utf8Size =
      amid (before ++ [c]) rest after := by
    simpa using advance_amid before rest after [c]
  rw [accept, peek_amid, ok_bind, List.head?_cons, if_pos rfl, hadvance]
  rfl

theorem moveTo_amid {c : Char} (hc : c.utf8Size = 1) :
    (amid before (c :: rest) after).moveTo (size before + 1) =
      amid (before ++ [c]) rest after := by
  simp [moveTo, amid, hc, Nat.add_assoc]

theorem skipBlanks_amid_of_head? (h : ∀ c ∈ rest.head?, isBlank c = false) :
    (amid before rest after).skipBlanks = .ok (amid before rest after) := by
  have hskip : (amid before ([] ++ rest) after).skipBlanks = .ok (amid (before ++ []) rest after) :=
    skipBlanks_amid (List.forall_mem_nil _) h
  simpa using hskip

theorem name_amid_of_head? (h : ∀ c ∈ rest.head?, isNameChar c = false) :
    (amid before rest after).name = .ok (none, amid before rest after) := by
  have hnil : rest.takeWhile isNameChar = [] :=
    takeWhile_append_of_head? (List.forall_mem_nil _) h
  rw [name, rest_amid, ok_bind, hnil]
  rfl

theorem upToAny_amid_of_eq_none {targets : List Char} (h : upToTarget? targets 0 rest = none) :
    (amid before rest after).upToAny targets = .ok (none, amid before rest after) := by
  simp [upToAny, h]

theorem block_amid_of_ne (h : rest.head? ≠ some opening) (closing : Char) :
    (amid before rest after).block opening closing =
      .ok (.error (.expected opening (size before)), amid before rest after) := by
  rw [block, rest_amid]
  cases rest with
  | nil => rfl
  | cons c rest =>
      have hc : c ≠ opening := by simpa using h
      simp [hc]

theorem block_amid_of_eq_none (h : blockInside? opening closing 0 rest = none) :
    (amid before (opening :: rest) after).block opening closing =
      .ok (.error (.unterminated opening (size before)), amid before (opening :: rest) after) := by
  simp [block, h]

theorem block_amid_cases (hne : opening ≠ closing) (before rest after : Text) :
    (blockInside? opening closing 0 rest = none ∧
      (amid before (opening :: rest) after).block opening closing =
        .ok (.error (.unterminated opening (size before)), amid before (opening :: rest) after)) ∨
      ∃ inside left, rest = inside ++ closing :: left ∧ Balanced opening closing inside ∧
        (amid before (opening :: rest) after).block opening closing =
          .ok (.ok (size before, size before + opening.utf8Size + size inside),
            amid (before ++ opening :: (inside ++ [closing])) left after) := by
  cases h : blockInside? opening closing 0 rest with
  | none => exact .inl ⟨rfl, block_amid_of_eq_none h⟩
  | some inside =>
      obtain ⟨⟨left, rfl⟩, hinside⟩ := balanced_of_blockInside? hne h
      exact .inr ⟨inside, left, rfl, hinside, block_amid hne hinside⟩

theorem recover_amid_of_eq_some {c : Char} (hc : c.utf8Size = 1) (hne : keyword ≠ [])
    (hkeyword : ∀ c ∈ keyword, isNameChar c = true)
    (h : upToWordAt? keyword sameDepth 0 (some c) (part ++ rest) = some part) :
    recover keyword (size before) (amid before (c :: (part ++ rest)) after) =
      .ok (amid (before ++ c :: part) rest after) := by
  have hlast : (before ++ [c]).getLast? = some c := List.getLast?_concat
  rw [recover, moveTo_amid hc, seekWord_amid_of_eq_some hne hkeyword (hlast ▸ h), ok_bind,
    List.append_assoc]
  rfl

theorem recover_amid_of_eq_none {c : Char} (hc : c.utf8Size = 1) (hne : keyword ≠ [])
    (hkeyword : ∀ c ∈ keyword, isNameChar c = true)
    (h : upToWordAt? keyword sameDepth 0 (some c) rest = none) :
    recover keyword (size before) (amid before (c :: rest) after) =
      .ok (amid (before ++ c :: rest) [] after) := by
  have hlast : (before ++ [c]).getLast? = some c := List.getLast?_concat
  rw [recover, moveTo_amid hc, seekWord_amid_of_eq_none hne hkeyword (hlast ▸ h), ok_bind,
    List.append_assoc]
  rfl

theorem exists_recover_amid {c : Char} (hc : c.utf8Size = 1) (hne : keyword ≠ [])
    (hkeyword : ∀ c ∈ keyword, isNameChar c = true) (before rest after : Text) :
    ∃ part left, rest = part ++ left ∧
      recover keyword (size before) (amid before (c :: rest) after) =
        .ok (amid (before ++ c :: part) left after) := by
  cases h : upToWordAt? keyword sameDepth 0 (some c) rest with
  | none => exact ⟨rest, [], by simp, recover_amid_of_eq_none hc hne hkeyword h⟩
  | some part =>
      obtain ⟨left, rfl, -, -⟩ := eq_append_of_upToWordAt? h
      exact ⟨part, keyword ++ left, rfl, recover_amid_of_eq_some hc hne hkeyword h⟩

end HeaderBindings.Header.Cursor
