import HeaderBindings.Proofs.Header.Cursor

/-! # Cursors between characters

A cursor whose ends are character boundaries of its text, in order, is one amid text: it can be
given by the text before it, the text of its range and the text after the range. -/

namespace HeaderBindings

open List

namespace Text

/-- A character starts at the offset, or the text ends there. -/
def IsBoundary (t : Text) (offset : Nat) : Prop :=
  ∃ front back, t = front ++ back ∧ size front = offset

theorem exists_of_dropBytes? {t rest : Text} {offset : Nat} (h : dropBytes? offset t = some rest) :
    ∃ front, t = front ++ rest ∧ size front = offset := by
  induction t generalizing offset with
  | nil =>
      cases offset with
      | zero => exact ⟨[], by simpa [dropBytes?] using h, rfl⟩
      | succ offset => cases h
  | cons c t ih =>
      cases offset with
      | zero => exact ⟨[], by simpa [dropBytes?] using h, rfl⟩
      | succ offset =>
          rw [dropBytes?] at h
          split at h
          next hfits =>
            obtain ⟨front, rfl, hfront⟩ := ih h
            exact ⟨c :: front, rfl, by rw [size_cons]; omega⟩
          next => cases h

theorem exists_of_takeBytes? {t part : Text} {count : Nat} (h : takeBytes? count t = some part) :
    ∃ rest, t = part ++ rest ∧ size part = count := by
  induction t generalizing count part with
  | nil =>
      cases count with
      | zero => exact ⟨[], by simpa [takeBytes?] using h.symm, by simp_all [takeBytes?]⟩
      | succ count => cases h
  | cons c t ih =>
      cases count with
      | zero =>
          cases h
          exact ⟨c :: t, rfl, rfl⟩
      | succ count =>
          rw [takeBytes?] at h
          split at h
          next hfits =>
            obtain ⟨later, hlater, rfl⟩ := Option.map_eq_some_iff.mp h
            obtain ⟨rest, rfl, hsize⟩ := ih hlater
            exact ⟨rest, rfl, by rw [size_cons]; omega⟩
          next => cases h

theorem exists_of_slice {t part : Text} {start stop : Nat} (h : slice start stop t = .ok part) :
    ∃ before after, t = before ++ part ++ after ∧ size before = start ∧
      size (before ++ part) = stop := by
  rw [slice] at h
  split at h
  next found hfound =>
    cases h
    split at hfound
    next hle =>
      obtain ⟨behind, hdrop, htake⟩ := Option.bind_eq_some_iff.mp hfound
      obtain ⟨before, rfl, hbefore⟩ := exists_of_dropBytes? hdrop
      obtain ⟨after, rfl, hpart⟩ := exists_of_takeBytes? htake
      refine ⟨before, after, (List.append_assoc _ _ _).symm, hbefore, ?_⟩
      rw [size_append]
      omega
    next => cases hfound
  next => cases h

theorem isSome_dropBytes?_iff {t : Text} {offset : Nat} :
    (dropBytes? offset t).isSome = true ↔ IsBoundary t offset := by
  rw [Option.isSome_iff_exists]
  constructor
  · rintro ⟨rest, h⟩
    obtain ⟨front, htext, hfront⟩ := exists_of_dropBytes? h
    exact ⟨front, rest, htext, hfront⟩
  · rintro ⟨front, back, rfl, rfl⟩
    exact ⟨back, dropBytes?_append front back⟩

instance (t : Text) (offset : Nat) : Decidable (IsBoundary t offset) :=
  decidable_of_iff _ isSome_dropBytes?_iff

theorem prefix_of_size_le {s t u : Text} (hs : s <+: u) (ht : t <+: u) (h : size s ≤ size t) :
    s <+: t := by
  rcases List.prefix_or_prefix_of_prefix hs ht with hst | ⟨rest, rfl⟩
  · exact hst
  · rw [size_append] at h
    have hrest : rest = [] := by
      by_contra hne
      have hpos := size_pos_of_ne_nil hne
      omega
    rw [hrest, List.append_nil]

end Text

namespace Header.Cursor

open Text

/-- The cursor and the end of its range stand between characters, in this order. -/
structure BetweenCharacters (s : Cursor) : Prop where
  pos : IsBoundary s.text s.pos
  stop : IsBoundary s.text s.stop
  pos_le_stop : s.pos ≤ s.stop

instance (s : Cursor) : Decidable s.BetweenCharacters :=
  decidable_of_iff (IsBoundary s.text s.pos ∧ IsBoundary s.text s.stop ∧ s.pos ≤ s.stop)
    ⟨fun h => ⟨h.1, h.2.1, h.2.2⟩, fun h => ⟨h.pos, h.stop, h.pos_le_stop⟩⟩

theorem betweenCharacters_amid (before rest after : Text) :
    (amid before rest after).BetweenCharacters where
  pos := ⟨before, rest ++ after, List.append_assoc before rest after, rfl⟩
  stop := ⟨before ++ rest, after, rfl, size_append before rest⟩
  pos_le_stop := Nat.le_add_right _ _

theorem BetweenCharacters.exists_eq_amid {s : Cursor} (h : s.BetweenCharacters) :
    ∃ before rest after, s = amid before rest after := by
  obtain ⟨text, pos, stop⟩ := s
  obtain ⟨before, back, hbefore, hpos⟩ := h.pos
  obtain ⟨front, after, hfront, hstop⟩ := h.stop
  have hprefix : before <+: front := by
    apply prefix_of_size_le ⟨back, hbefore.symm⟩ ⟨after, hfront.symm⟩
    rw [hpos, hstop]
    exact h.pos_le_stop
  obtain ⟨rest, rfl⟩ := hprefix
  refine ⟨before, rest, after, ?_⟩
  simp only at hfront hpos hstop
  rw [amid, ← hfront, hpos, ← hstop, size_append, hpos]

/-- A cursor sees its range exactly if it stands between characters. -/
theorem exists_rest_eq_ok_iff {s : Cursor} : (∃ rest, s.rest = .ok rest) ↔ s.BetweenCharacters := by
  constructor
  · rintro ⟨rest, h⟩
    obtain ⟨before, after, htext, hpos, hstop⟩ := exists_of_slice h
    refine ⟨⟨before, rest ++ after, ?_, hpos⟩, ⟨before ++ rest, after, htext, hstop⟩, ?_⟩
    · rw [htext, List.append_assoc]
    · rw [← hpos, ← hstop, size_append]
      exact Nat.le_add_right _ _
  · intro h
    obtain ⟨before, rest, after, rfl⟩ := h.exists_eq_amid
    exact ⟨rest, rest_amid before rest after⟩

theorem exists_rest_eq_error {s : Cursor} (hs : ¬ s.BetweenCharacters) :
    ∃ cut, s.rest = .error cut := by
  cases hrest : s.rest with
  | ok rest => exact absurd (exists_rest_eq_ok_iff.mp ⟨rest, hrest⟩) hs
  | error cut => exact ⟨cut, rfl⟩

end Header.Cursor

end HeaderBindings
