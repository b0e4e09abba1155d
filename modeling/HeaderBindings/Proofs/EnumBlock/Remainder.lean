import HeaderBindings.EnumBlock
import HeaderBindings.Proofs.Identifier.Underscores
import Mathlib.Data.List.DropRight

/-! # What is left of an entry

An entry is bound under the underscore form of a part of its name. The part is what is left when
the enumeration's own name is taken off the front, first as it is written and then, where an
underscore follows in underscore form, in any spelling with the same underscore form. -/

namespace HeaderBindings.EnumBlock

open List Text Identifier

/-- The parts of an identifier behind its enumeration's own name in underscore form, or the whole
identifier if it starts otherwise. -/
def behindOwn (own t : Text) : List Text :=
  if snakeCase own ++ ['_'] <+: snakeCase t then
    ((List.range (t.length + 1)).filter fun n => snakeCase (t.take n) = snakeCase own).map
      (t.drop ·)
  else [t]

/-- What is left of an identifier behind its enumeration's own name. If that is nothing but
underscores, the whole identifier is left. -/
def remainders (own entry : Text) : List Text :=
  (behindOwn own (dropStart own entry)).map fun rest =>
    if underscoreForm rest = [] then entry else rest

/-- The same underscore form, but for leading underscores, is left of both identifiers. -/
def Alike (own entry entry' : Text) : Prop :=
  ∃ rest ∈ remainders own entry, ∃ rest' ∈ remainders own entry',
    underscoreForm rest = underscoreForm rest'

instance (own entry entry' : Text) : Decidable (Alike own entry entry') :=
  inferInstanceAs (Decidable (∃ rest ∈ _, ∃ rest' ∈ _, _))

section

variable {own entry snake short : Text}

theorem boundName_eq_ite (hsnake : snakeCase (dropStart own entry) = snake)
    (hshort : (dropStart (snakeCase own ++ ['_']) snake).dropWhile (· == '_') = short) :
    boundName own entry = if short = [] then snakeCase entry else short := by
  subst hsnake hshort
  change (if List.isEmpty _ then _ else _) = _
  simp only [List.isEmpty_iff]
  rfl

theorem boundName_eq_of_ne_nil (hsnake : snakeCase (dropStart own entry) = snake)
    (hshort : (dropStart (snakeCase own ++ ['_']) snake).dropWhile (· == '_') = short)
    (hne : short ≠ []) : boundName own entry = short := by
  rw [boundName_eq_ite hsnake hshort, if_neg hne]

end

theorem mem_behindOwn_of_append {own s u : Text}
    (hstart : snakeCase own ++ ['_'] <+: snakeCase (s ++ u)) (h : snakeCase s = snakeCase own) :
    u ∈ behindOwn own (s ++ u) := by
  rw [behindOwn, if_pos hstart, List.mem_map]
  refine ⟨s.length, ?_, List.drop_left⟩
  rw [List.mem_filter, List.mem_range, List.take_left, List.length_append, decide_eq_true_iff]
  exact ⟨by omega, h⟩

/-- To remove the own name from an underscore form is to remove it from the identifier. -/
theorem exists_mem_behindOwn (own t : Text) :
    ∃ rest ∈ behindOwn own t,
      (dropStart (snakeCase own ++ ['_']) (snakeCase t)).dropWhile (· == '_') =
        underscoreForm rest := by
  by_cases hstart : snakeCase own ++ ['_'] <+: snakeCase t
  · obtain ⟨back, hback⟩ := hstart
    have hcut : snakeCase t = snakeCase own ++ '_' :: back := by
      rw [← hback, List.append_assoc]
      rfl
    obtain ⟨s, u, rfl, hs, hu⟩ := exists_of_snakeCase_eq_append hcut
    refine ⟨u, mem_behindOwn_of_append ⟨back, hback⟩ hs, ?_⟩
    rw [← hback, dropStart_append, hu]
  · refine ⟨t, ?_, ?_⟩
    · rw [behindOwn, if_neg hstart]
      exact List.mem_singleton_self t
    · rw [dropStart_of_not_isPrefix hstart]
      rfl

/-- An entry is bound under the underscore form of a part of its name. -/
theorem exists_boundName_eq (own entry : Text) :
    ∃ rest ∈ behindOwn own (dropStart own entry),
      boundName own entry =
        if underscoreForm rest = [] then snakeCase entry else underscoreForm rest := by
  obtain ⟨rest, hrest, hform⟩ := exists_mem_behindOwn own (dropStart own entry)
  exact ⟨rest, hrest, boundName_eq_ite rfl hform⟩

theorem exists_mem_remainders (own entry : Text) :
    ∃ rest ∈ remainders own entry,
      (boundName own entry).dropWhile (· == '_') = underscoreForm rest := by
  obtain ⟨rest, hrest, hname⟩ := exists_boundName_eq own entry
  refine ⟨_, List.mem_map_of_mem hrest, ?_⟩
  rw [hname]
  split
  · rfl
  · exact List.dropWhile_idempotent _ _

theorem alike_of_boundName_eq {own entry entry' : Text}
    (h : boundName own entry = boundName own entry') : Alike own entry entry' := by
  obtain ⟨rest, hrest, hform⟩ := exists_mem_remainders own entry
  obtain ⟨rest', hrest', hform'⟩ := exists_mem_remainders own entry'
  refine ⟨rest, hrest, rest', hrest', ?_⟩
  rw [← hform, ← hform', h]

end HeaderBindings.EnumBlock
