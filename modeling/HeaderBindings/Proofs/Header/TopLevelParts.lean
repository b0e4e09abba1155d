import HeaderBindings.Proofs.Header.Entries

/-! # Parts outside of brackets

A text has one list of parts between the separators that stand outside of all brackets, and
splitting gives that list. An entry of an enumeration is read from a part that is not blank: what
stands right of the first equals sign does not matter to it. -/

namespace HeaderBindings.Header

open List Text

/-! ## Parts -/

/-- The parts of a text between separators: inside of a part every separator is nested in brackets,
and behind a part that is followed by another no bracket is open. A closing bracket that closes
nothing does not count. -/
inductive TopLevelParts (separator : Char) : Text → List Text → Prop
  | last {t : Text} (h : Nests bracketDepthAfter [separator] 0 t) : TopLevelParts separator t [t]
  | cons {first rest : Text} {parts : List Text}
      (hfirst : Nests bracketDepthAfter [separator] 0 first)
      (hclosed : first.foldl bracketDepthAfter 0 = 0) (h : TopLevelParts separator rest parts) :
      TopLevelParts separator (first ++ separator :: rest) (first :: parts)

variable {separator : Char} {depth : Nat} {t : Text} {parts : List Text}

theorem splitOutsideBrackets_of_nests (h : Nests bracketDepthAfter [separator] depth t) :
    splitOutsideBrackets separator depth t = [t] := by
  induction t generalizing depth with
  | nil => rfl
  | cons c t ih =>
      obtain ⟨hc, h⟩ := nests_cons_iff.mp h
      have hnot : ¬ (isBracket c = false ∧ c = separator ∧ depth = 0) := by
        rintro ⟨-, rfl, hdepth⟩
        exact hc (List.mem_singleton_self c) hdepth
      rw [splitOutsideBrackets_cons hnot, ih h, List.modifyHead_cons]

theorem splitOutsideBrackets_of_closed (hseparator : isBracket separator = false) {first : Text}
    (hfirst : Nests bracketDepthAfter [separator] depth first)
    (hclosed : first.foldl bracketDepthAfter depth = 0) (rest : Text) :
    splitOutsideBrackets separator depth (first ++ separator :: rest) =
      first :: splitOutsideBrackets separator 0 rest := by
  induction first generalizing depth with
  | nil =>
      obtain rfl : depth = 0 := hclosed
      simp [splitOutsideBrackets, hseparator]
  | cons c first ih =>
      obtain ⟨hc, hfirst⟩ := nests_cons_iff.mp hfirst
      have hnot : ¬ (isBracket c = false ∧ c = separator ∧ depth = 0) := by
        rintro ⟨-, rfl, hdepth⟩
        exact hc (List.mem_singleton_self c) hdepth
      rw [List.cons_append, splitOutsideBrackets_cons hnot, ih hfirst hclosed,
        List.modifyHead_cons]

/-- Every separator of a text is nested, or there is a first one that is not. -/
theorem nests_or_exists_first (separator : Char) (depth : Nat) (t : Text) :
    Nests bracketDepthAfter [separator] depth t ∨
      ∃ first rest, t = first ++ separator :: rest ∧
        Nests bracketDepthAfter [separator] depth first ∧
        first.foldl bracketDepthAfter depth = 0 := by
  induction t generalizing depth with
  | nil => exact .inl (nests_nil _ _ _)
  | cons c t ih =>
      by_cases hc : c = separator ∧ depth = 0
      · obtain ⟨rfl, rfl⟩ := hc
        exact .inr ⟨[], t, rfl, nests_nil _ _ _, rfl⟩
      · have hnested : c ∈ [separator] → depth ≠ 0 := by
          intro hmem hdepth
          exact hc ⟨List.mem_singleton.mp hmem, hdepth⟩
        rcases ih (bracketDepthAfter depth c) with h | ⟨first, rest, rfl, hfirst, hclosed⟩
        · exact .inl (nests_cons_iff.mpr ⟨hnested, h⟩)
        · exact .inr ⟨c :: first, rest, rfl, nests_cons_iff.mpr ⟨hnested, hfirst⟩, hclosed⟩

theorem splitTopLevel_of_topLevelParts (hseparator : isBracket separator = false)
    (h : TopLevelParts separator t parts) : splitTopLevel separator t = parts := by
  rw [splitTopLevel]
  induction h with
  | last h => exact splitOutsideBrackets_of_nests h
  | cons hfirst hclosed _ ih =>
      rw [splitOutsideBrackets_of_closed hseparator hfirst hclosed, ih]

theorem exists_topLevelParts (separator : Char) (t : Text) :
    ∃ parts, TopLevelParts separator t parts := by
  induction hlength : t.length using Nat.strong_induction_on generalizing t with
  | _ length ih =>
    rcases nests_or_exists_first separator 0 t with h | ⟨first, rest, rfl, hfirst, hclosed⟩
    · exact ⟨[t], .last h⟩
    · have hshort : rest.length < length := by
        rw [← hlength, List.length_append, List.length_cons]
        omega
      obtain ⟨parts, hparts⟩ := ih rest.length hshort rest rfl
      exact ⟨first :: parts, .cons hfirst hclosed hparts⟩

/-- Splitting gives the parts of a text. -/
theorem topLevelParts_iff (hseparator : isBracket separator = false) :
    TopLevelParts separator t parts ↔ splitTopLevel separator t = parts := by
  refine ⟨splitTopLevel_of_topLevelParts hseparator, ?_⟩
  rintro rfl
  obtain ⟨parts, hparts⟩ := exists_topLevelParts separator t
  rw [splitTopLevel_of_topLevelParts hseparator hparts]
  exact hparts

/-! ## Entries -/

/-- The name in a part: the text left of the first equals sign, or all of it, without the white
space around it. -/
def nameOfPart (part : Text) : Text := trim (part.takeWhile (· != '='))

/-- The parts that are not blank. -/
def namingParts (parts : List Text) : List Text := parts.filter (·.any (!isBlank ·))

theorem trim_eq_nil_iff {t : Text} : trim t = [] ↔ ∀ c ∈ t, isBlank c = true := by
  constructor
  · intro h
    obtain ⟨lead, trail, ht, hlead, htrail⟩ := exists_trim_append t
    rw [ht, h, List.nil_append]
    exact List.forall_mem_append.mpr ⟨hlead, htrail⟩
  · intro h
    rw [← List.append_nil t, trim_append_of_forall_isBlank h]
    rfl

theorem takeWhile_ne_equals {left : Text} (h : '=' ∉ left) (right : Text) :
    (left ++ '=' :: right).takeWhile (· != '=') = left := by
  refine takeWhile_append_of_head? (fun c hc => ?_) (by simp)
  rw [bne_iff_ne]
  rintro rfl
  exact h hc

theorem nameOfPart_trim (part : Text) : nameOfPart (trim part) = nameOfPart part := by
  obtain ⟨lead, trail, hpart, hlead, htrail⟩ := exists_trim_append part
  have hequals : ∀ c, isBlank c = true → (c != '=') = true := by
    intro c hc
    rw [bne_iff_ne]
    exact ne_of_isBlank hc (by decide)
  have hstart : nameOfPart part = trim ((trim part ++ trail).takeWhile (· != '=')) := by
    conv_lhs => rw [hpart]
    rw [nameOfPart, List.takeWhile_append_of_pos fun c hc => hequals c (hlead c hc),
      trim_append_of_forall_isBlank hlead]
  rw [hstart, nameOfPart]
  by_cases hmem : '=' ∈ trim part
  · obtain ⟨left, right, hsplit, hleft⟩ := List.eq_append_cons_of_mem hmem
    rw [hsplit, List.append_assoc, List.cons_append, takeWhile_ne_equals hleft,
      takeWhile_ne_equals hleft]
  · have hnone : ∀ c ∈ trim part, (c != '=') = true := by
      intro c hc
      rw [bne_iff_ne]
      rintro rfl
      exact hmem hc
    rw [List.takeWhile_append_of_pos hnone, List.takeWhile_eq_self_iff.mpr hnone,
      List.takeWhile_eq_self_iff.mpr fun c hc => hequals c (htrail c hc),
      trim_append_right_of_forall_isBlank htrail]

theorem entryOfPiece?_of_not_blank (enumName : Text) {part : Text}
    (h : part.any (!isBlank ·) = true) :
    entryOfPiece? enumName part =
      some ⟨nameOfPart part, (trim part).contains '=',
        EnumBlock.boundName enumName (nameOfPart part)⟩ := by
  obtain ⟨c, hc, hblank⟩ := List.any_eq_true.mp h
  have hne : trim part ≠ [] := by
    intro htrim
    rw [trim_eq_nil_iff.mp htrim c hc] at hblank
    cases hblank
  rw [← nameOfPart_trim, entryOfPiece?, if_neg (by simpa using hne)]
  rfl

/-- The entries of a body are those of its parts that are not blank, in order. -/
theorem map_enumEntries_of_topLevelParts (enumName : Text) {body : Text}
    (h : TopLevelParts ',' body parts) :
    (enumEntries enumName body).map (fun entry => (entry.name, entry.exposed)) =
      (namingParts parts).map fun part =>
        (nameOfPart part, EnumBlock.boundName enumName (nameOfPart part)) := by
  rw [enumEntries, splitTopLevel_of_topLevelParts (by decide) h, namingParts]
  clear h
  induction parts with
  | nil => rfl
  | cons part parts ih =>
      by_cases hpart : part.any (!isBlank ·) = true
      · rw [List.filterMap_cons_some (entryOfPiece?_of_not_blank enumName hpart),
          List.filter_cons, if_pos hpart, List.map_cons, List.map_cons, ih]
      · have hblank : ∀ c ∈ part, isBlank c = true := by
          simpa using hpart
        rw [List.filterMap_cons_none (entryOfPiece?_blanks enumName hblank),
          List.filter_cons, if_neg hpart, ih]

/-! ## Values -/

/-- Two parts that differ at most in what stands right of the first equals sign. -/
inductive SameButValue : Text → Text → Prop
  | refl (part : Text) : SameButValue part part
  | value {left : Text} (h : '=' ∉ left) (right right' : Text) :
      SameButValue (left ++ '=' :: right) (left ++ '=' :: right')

theorem SameButValue.nameOfPart_eq {part part' : Text} (h : SameButValue part part') :
    nameOfPart part = nameOfPart part' := by
  cases h with
  | refl => rfl
  | value h => rw [nameOfPart, nameOfPart, takeWhile_ne_equals h, takeWhile_ne_equals h]

theorem SameButValue.any_not_isBlank_eq {part part' : Text} (h : SameButValue part part') :
    part.any (!isBlank ·) = part'.any (!isBlank ·) := by
  cases h with
  | refl => rfl
  | value h right right' =>
      have hequals : (!isBlank '=') = true := by decide
      rw [List.any_append, List.any_cons, List.any_append, List.any_cons, hequals, Bool.true_or,
        Bool.true_or]

/-- Values do not matter to the names of the entries. -/
theorem map_nameOfPart_namingParts_congr {parts parts' : List Text}
    (h : Forall₂ SameButValue parts parts') :
    (namingParts parts).map nameOfPart = (namingParts parts').map nameOfPart := by
  rw [namingParts, namingParts]
  induction h with
  | nil => rfl
  | @cons part part' parts parts' hpart _ ih =>
      rw [List.filter_cons, List.filter_cons, hpart.any_not_isBlank_eq]
      split
      · rw [List.map_cons, List.map_cons, hpart.nameOfPart_eq, ih]
      · exact ih

end HeaderBindings.Header
