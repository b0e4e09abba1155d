import HeaderBindings.Proofs.EnumBlock.Remainder
import HeaderBindings.Proofs.Header.EnumProvenance
import HeaderBindings.Proofs.Header.Totality

/-! # Entries bound under one name

Two entries of an enumeration are bound under one name only if they are alike: but for underscores
in front and for the case and the breaks of their letters, the same is left of their identifiers
behind the enumeration's own name. -/

namespace HeaderBindings.Header

open List Text EnumBlock Identifier

theorem exposed_of_mem_enumEntries {own body : Text} {entry : EnumEntry}
    (h : entry ∈ enumEntries own body) : entry.exposed = boundName own entry.name := by
  obtain ⟨piece, -, hpiece⟩ := List.mem_filterMap.mp h
  rw [entryOfPiece?] at hpiece
  split at hpiece
  · cases hpiece
  · cases hpiece
    rfl

theorem exposed_of_enumsOf {raw : Text} {found : Findings EnumBlock}
    (h : enumsOf raw = .ok found) {e : EnumBlock} (he : e ∈ found.items) :
    ∀ entry ∈ e.entries, entry.exposed = boundName e.name entry.name := by
  obtain ⟨start, stop, before, text, behind, -, -, -, -, -, p, hentries⟩ :=
    (successive_of_enumsIn h).exists_place e he
  rw [hentries]
  exact fun entry => exposed_of_mem_enumEntries

/-- Every header is read, and every entry is bound under the underscore form of what is left of its
identifier. Entries of one enumeration are bound under one name only if they are alike. -/
theorem exists_enumsOf_nodup_exposed (raw : Text) :
    ∃ found, enumsOf raw = .ok found ∧ ∀ e ∈ found.items,
      (∀ entry ∈ e.entries, ∃ rest ∈ behindOwn e.name (dropStart e.name entry.name),
        entry.exposed =
          if underscoreForm rest = [] then snakeCase entry.name else underscoreForm rest) ∧
      (∀ entry ∈ e.entries, ∀ entry' ∈ e.entries,
        entry.exposed = entry'.exposed → Alike e.name entry.name entry'.name) ∧
      (e.entries.Pairwise (fun entry entry' => ¬ Alike e.name entry.name entry'.name) →
        (e.entries.map EnumEntry.exposed).Nodup) := by
  obtain ⟨found, hfound⟩ := exists_enumsOf_eq_ok raw
  refine ⟨found, hfound, fun e he => ?_⟩
  have halike : ∀ entry ∈ e.entries, ∀ entry' ∈ e.entries,
      entry.exposed = entry'.exposed → Alike e.name entry.name entry'.name := by
    intro entry hentry entry' hentry' heq
    rw [exposed_of_enumsOf hfound he entry hentry,
      exposed_of_enumsOf hfound he entry' hentry'] at heq
    exact alike_of_boundName_eq heq
  refine ⟨?_, halike, fun hpairwise => ?_⟩
  · intro entry hentry
    rw [exposed_of_enumsOf hfound he entry hentry]
    exact exists_boundName_eq e.name entry.name
  · rw [List.Nodup, List.pairwise_map]
    apply hpairwise.imp_of_mem
    intro entry entry' hentry hentry' hnot heq
    exact hnot (halike entry hentry entry' hentry' heq)

/-- The own name is left out in both spellings, and no two entries are alike. -/
theorem exists_enumsOf_nodup_exposed_mode :
    let raw : Text := "enum Mode \x7b MODE_ON, ModeOff, MODE_MODE_ON, Off_2 \x7d;"
    let e : EnumBlock := ⟨"Mode", [⟨"MODE_ON", false, "on"⟩, ⟨"ModeOff", false, "off"⟩,
      ⟨"MODE_MODE_ON", false, "mode_on"⟩, ⟨"Off_2", false, "off_2"⟩], ⟨0, 52⟩⟩
    ∃ found, enumsOf raw = .ok found ∧ e ∈ found.items ∧
      e.entries.Pairwise (fun entry entry' => ¬ Alike e.name entry.name entry'.name) ∧
      (e.entries.map EnumEntry.exposed).Nodup := by
  intro raw e
  obtain ⟨found, hfound, hnodup⟩ := exists_enumsOf_nodup_exposed raw
  have hread : enumsOf raw = .ok { items := [e] } := by decide +kernel
  have he : e ∈ found.items := by
    rw [hread] at hfound
    cases hfound
    exact List.mem_singleton_self e
  have hpairwise : e.entries.Pairwise fun entry entry' =>
      ¬ Alike e.name entry.name entry'.name := by decide +kernel
  exact ⟨found, hfound, he, hpairwise, (hnodup e he).2.2 hpairwise⟩

/-- Behind the own name `MODE_ON` goes on with the other entry. -/
theorem not_forall_nodup_exposed :
    ¬ ∀ (raw : Text) (found : Findings EnumBlock), enumsOf raw = .ok found →
      ∀ e ∈ found.items, (e.entries.map EnumEntry.name).Nodup →
        (e.entries.map EnumEntry.exposed).Nodup := by
  intro h
  let raw : Text := "enum Mode \x7b MODE_ON, On \x7d;"
  let e : EnumBlock :=
    ⟨"Mode", [⟨"MODE_ON", false, "on"⟩, ⟨"On", false, "on"⟩], ⟨0, 26⟩⟩
  have hread : enumsOf raw = .ok { items := [e] } := by decide +kernel
  have hnodup := h raw _ hread e (List.mem_singleton_self e) (by decide)
  exact absurd hnodup (by decide)

end HeaderBindings.Header
