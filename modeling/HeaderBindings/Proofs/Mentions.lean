import HeaderBindings.Proofs.HandWritten
import Mathlib.Data.List.Infix

/-! # What the parts of a text mention

A text that is put together from parts mentions what its parts mention, where no mention reaches
across the seams. A part without a colon mentions nothing, and so does any other in which no
mention starts, as long as no mention goes on behind its end. A call between a blank and a bracket
mentions the native that is called. -/

namespace HeaderBindings

open List Text

/-- Wherever the part stands, it mentions the given names and no other name starts in it. -/
def Yields (part : Text) (names : List Text) : Prop :=
  ∀ (before? : Option Char) (rest : Text),
    mentions before? (part ++ rest) = names ++ mentions (part.getLast?.or before?) rest

namespace Yields

variable {part other : Text} {names others : List Text}

theorem nil : Yields [] [] := fun _ _ => rfl

theorem append (h : Yields part names) (hother : Yields other others) :
    Yields (part ++ other) (names ++ others) := by
  intro before? rest
  have hlast : (part ++ other).getLast?.or before? =
      other.getLast?.or (part.getLast?.or before?) := by
    by_cases hne : part = []
    · rw [hne]
      rfl
    · rw [getLast?_append_or hne, List.getLast?_eq_some_getLast hne, Option.some_or]
  rw [hlast, List.append_assoc, h, hother, List.append_assoc]

theorem flatMap {α : Type} {items : List α} {text : α → Text} {found : α → List Text}
    (h : ∀ a ∈ items, Yields (text a) (found a)) :
    Yields (items.flatMap text) (items.flatMap found) := by
  induction items with
  | nil => exact nil
  | cons a items ih =>
      obtain ⟨ha, hitems⟩ := List.forall_mem_cons.mp h
      exact ha.append (ih hitems)

theorem mentions_eq (h : Yields part names) : mentions none part = names := by
  have hpart := h none []
  rwa [List.append_nil, mentions, List.append_nil] at hpart

end Yields

/-! ## Parts without mentions -/

/-- No mention starts in the part, not even one that ends behind it. -/
structure IsQuiet (part : Text) : Prop where
  ends : part.getLast?.any (fun c => isScopeChar c || c == ':') = false
  not_starts : ∀ t ∈ part.tails, mentionAtStart? t = none

instance (part : Text) : Decidable (IsQuiet part) :=
  decidable_of_iff (_ ∧ _) ⟨fun h => ⟨h.1, h.2⟩, fun h => ⟨h.ends, h.not_starts⟩⟩

/-- A mention that starts in a text ends in it, or the text ends within the scope or the
colons. -/
theorem mentionAtStart?_append_eq_none {t : Text} (h : mentionAtStart? t = none) (hne : t ≠ [])
    (hends : t.getLast?.any (fun c => isScopeChar c || c == ':') = false) (rest : Text) :
    mentionAtStart? (t ++ rest) = none := by
  by_contra hsome
  obtain ⟨⟨found, after⟩, hfound⟩ := Option.ne_none_iff_exists'.mp hsome
  obtain ⟨scope, function, hscope, hname, -, rfl, htext⟩ := exists_of_mentionAtStart? hfound
  have hlast : t.getLast hne ∉ scope ++ "::".toList := by
    obtain ⟨hchar, hcolon⟩ : isScopeChar (t.getLast hne) = false ∧ t.getLast hne ≠ ':' := by
      simpa [List.getLast?_eq_some_getLast hne] using hends
    rw [List.mem_append, not_or]
    refine ⟨fun hmem => ?_, by simpa using hcolon⟩
    rw [hscope.isScopeChar _ hmem] at hchar
    cases hchar
  rw [List.append_assoc] at htext
  rcases List.append_eq_append_iff.mp htext with ⟨missing, hopening, -⟩ | ⟨part, rfl, hpart⟩
  · rw [hopening] at hlast
    exact hlast (List.mem_append_left _ (List.getLast_mem hne))
  · obtain ⟨c, tail, rfl⟩ : ∃ c tail, part = c :: tail := by
      refine List.exists_cons_of_ne_nil ?_
      rintro rfl
      simp only [List.append_nil] at hlast
      exact hlast (List.getLast_mem _)
    have hc : isNameChar c = true := by
      obtain ⟨first, function, rfl⟩ := List.exists_cons_of_ne_nil hname.ne_nil
      obtain ⟨rfl, -⟩ := List.cons.inj hpart
      exact hname.isNameChar first List.mem_cons_self
    obtain ⟨run, back, htail, hrun, hback⟩ := exists_run_append isNameChar tail
    have hrun' : Header.IsName (c :: run) :=
      ⟨List.cons_ne_nil _ _, List.forall_mem_cons.mpr ⟨hc, hrun⟩⟩
    have hback' : back.head?.any isNameChar = false := by
      cases hhead : back.head? with
      | none => rfl
      | some d => exact hback d hhead
    rw [htail, ← List.cons_append, ← List.append_assoc,
      mentionAtStart?_of_isScope hscope hrun' hback'] at h
    cases h

theorem IsQuiet.yields {part : Text} (h : IsQuiet part) : Yields part [] := by
  induction part with
  | nil => exact Yields.nil
  | cons c part ih =>
      have hpart : IsQuiet part := by
        refine ⟨?_, fun t ht => h.not_starts t ?_⟩
        · have hends := h.ends
          rw [List.getLast?_cons] at hends
          cases hlast : part.getLast? with
          | none => rfl
          | some d => rwa [hlast] at hends
        · rw [List.mem_tails] at ht ⊢
          exact ht.trans (List.suffix_cons c part)
      intro before? rest
      have hstart : mentionAtStart? (c :: part ++ rest) = none :=
        mentionAtStart?_append_eq_none (h.not_starts _ ((List.mem_tails _ _).mpr List.suffix_rfl))
          (List.cons_ne_nil c part) h.ends rest
      rw [getLast?_cons_or]
      exact (mentions_cons (.inr hstart)).trans (ih hpart (some c) rest)

/-- The part is quiet up to some place, and no colon stands behind that place. -/
def EndsClear (part : Text) : Prop :=
  ∃ front clear, part = front ++ clear ∧ IsQuiet front ∧ ':' ∉ clear

namespace EndsClear

variable {part more : Text}

theorem of_isQuiet (h : IsQuiet part) : EndsClear part :=
  ⟨part, [], (List.append_nil part).symm, h, List.not_mem_nil⟩

theorem of_not_mem (h : ':' ∉ part) : EndsClear part :=
  ⟨[], part, rfl, by decide, h⟩

theorem append (h : EndsClear part) (hmore : ':' ∉ more) : EndsClear (part ++ more) := by
  obtain ⟨front, clear, rfl, hfront, hclear⟩ := h
  refine ⟨front, clear ++ more, List.append_assoc front clear more, hfront, ?_⟩
  rw [List.mem_append, not_or]
  exact ⟨hclear, hmore⟩

theorem yields (h : EndsClear part) (hends : part.getLast?.any isScopeChar = false) :
    Yields part [] := by
  obtain ⟨front, clear, rfl, hfront, hclear⟩ := h
  refine hfront.yields.append (IsQuiet.yields ⟨?_, fun t ht => ?_⟩)
  · cases hlast : clear.getLast? with
    | none => rfl
    | some c =>
        have hcolon : c ≠ ':' := by
          rintro rfl
          exact hclear (List.mem_of_getLast? hlast)
        rw [List.getLast?_append, hlast] at hends
        simpa [hcolon] using hends
  · by_contra hsome
    obtain ⟨⟨found, after⟩, hfound⟩ := Option.ne_none_iff_exists'.mp hsome
    obtain ⟨scope, function, -, -, -, rfl, rfl⟩ := exists_of_mentionAtStart? hfound
    refine hclear (((List.mem_tails _ _).mp ht).subset ?_)
    simp

/-- A closing text keeps the end of the part from being read as a scope. -/
theorem yields_append (h : EndsClear part)
    (hmore : ':' ∉ more ∧ more.getLast?.map isScopeChar = some false) :
    Yields (part ++ more) [] := by
  apply (h.append hmore.1).yields
  obtain ⟨c, hlast, hc⟩ := Option.map_eq_some_iff.mp hmore.2
  rw [List.getLast?_append, hlast]
  exact hc

end EndsClear

/-! ## Calls -/

theorem yields_call {scope function : Text} (hscope : IsScope scope)
    (hname : Header.IsName function) :
    Yields ([' '] ++ (scope ++ "::" ++ function) ++ ['(']) [scope ++ "::" ++ function] := by
  intro before? rest
  have hfound : mentionAtStart? (scope ++ "::" ++ function ++ '(' :: rest) =
      some (scope ++ "::" ++ function, '(' :: rest) :=
    mentionAtStart?_of_isScope hscope hname rfl
  have hblank : Yields [' '] [] := IsQuiet.yields (by decide)
  have hbracket : Yields ['('] [] := IsQuiet.yields (by decide)
  rw [List.getLast?_concat, List.append_assoc, List.append_assoc]
  calc mentions before? ([' '] ++ (scope ++ "::" ++ function ++ '(' :: rest))
      = mentions (some ' ') (scope ++ "::" ++ function ++ '(' :: rest) := hblank before? _
    _ = (scope ++ "::" ++ function) ::
          mentions (scope ++ "::".toList ++ function).getLast? (['('] ++ rest) :=
        mentions_of_eq_some (by decide) hfound
    _ = (scope ++ "::" ++ function) :: mentions (some '(') rest :=
        congrArg _ (hbracket _ rest)

end HeaderBindings
