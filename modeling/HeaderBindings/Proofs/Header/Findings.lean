import HeaderBindings.Header.Findings
import HeaderBindings.Proofs.Outcome

/-! # Rounds

How the findings of a header are put together from those of its rounds. -/

namespace HeaderBindings.Header

variable {α : Type} {round : Cursor → Except BadCut (Round α)} {s next : Cursor}
  {batch later : Findings α}

theorem Findings.append_assoc (a b c : Findings α) : a ++ b ++ c = a ++ (b ++ c) := by
  change (a.append b).append c = a.append (b.append c)
  simp only [append, List.append_assoc]

theorem collect_of_finished (h : round s = .ok .finished) : collect round s = .ok {} := by
  rw [collect, h]
  rfl

theorem collect_of_found (h : round s = .ok (.found batch next))
    (hforward : next.remaining < s.remaining) (hlater : collect round next = .ok later) :
    collect round s = .ok (batch ++ later) := by
  rw [collect, h, ok_bind]
  simp only [dif_pos hforward, hlater, ok_bind, pure_eq_ok]

theorem collect_congr {s' : Cursor} (h : round s = round s')
    (hs : ∀ batch next, round s = .ok (.found batch next) → next.remaining < s.remaining)
    (hs' : ∀ batch next, round s' = .ok (.found batch next) → next.remaining < s'.remaining) :
    collect round s = collect round s' := by
  rw [collect, collect, h]
  cases hround : round s' with
  | error cut => rfl
  | ok outcome =>
      cases outcome with
      | finished => rfl
      | found batch next =>
          simp only [ok_bind, dif_pos (hs batch next (h.trans hround)),
            dif_pos (hs' batch next hround)]

theorem forall_mem_of_collect {property : α → Prop} {found : Findings α}
    (hround : ∀ s batch next, round s = .ok (.found batch next) → ∀ a ∈ batch.items, property a)
    (h : collect round s = .ok found) : ∀ a ∈ found.items, property a := by
  induction hsize : s.remaining using Nat.strongRecOn generalizing s found with
  | ind size ih =>
      rw [collect] at h
      obtain ⟨outcome, houtcome, h⟩ := bind_eq_ok_iff.mp h
      cases outcome with
      | finished =>
          cases h
          intro a ha
          exact absurd ha List.not_mem_nil
      | found batch next =>
          simp only at h
          split at h
          next hforward =>
            obtain ⟨later, hlater, h⟩ := bind_eq_ok_iff.mp h
            cases h
            intro a ha
            rcases List.mem_append.mp ha with ha | ha
            · exact hround s batch next houtcome a ha
            · exact ih next.remaining (hsize ▸ hforward) hlater rfl a ha
          next =>
            rw [← Except.ok.inj h]
            exact hround s batch next houtcome

/-- A property of what the rest of a run finds holds of the whole run, if each round that moves
forward carries it from the rest to the whole. -/
theorem collect_induction (invariant : Cursor → Prop) {motive : Cursor → Findings α → Prop}
    (hfinished : ∀ s, invariant s → round s = .ok .finished → motive s {})
    (hfound : ∀ s batch next, invariant s → round s = .ok (.found batch next) →
      next.remaining < s.remaining ∧ invariant next ∧
        ∀ later, motive next later → motive s (batch ++ later))
    {found : Findings α} (hs : invariant s) (h : collect round s = .ok found) :
    motive s found := by
  induction hsize : s.remaining using Nat.strongRecOn generalizing s found with
  | ind size ih =>
      rw [collect] at h
      obtain ⟨outcome, houtcome, h⟩ := bind_eq_ok_iff.mp h
      cases outcome with
      | finished =>
          cases h
          exact hfinished s hs houtcome
      | found batch next =>
          obtain ⟨hforward, hnext, hcarry⟩ := hfound s batch next hs houtcome
          simp only [dif_pos hforward] at h
          obtain ⟨later, hlater, h⟩ := bind_eq_ok_iff.mp h
          cases h
          exact hcarry later (ih next.remaining (hsize ▸ hforward) hnext hlater rfl)

/-- A run ends well if every round does and leaves the cursor where the next one does. -/
theorem exists_collect_eq_ok {invariant : Cursor → Prop}
    (hround : ∀ s, invariant s → ∃ outcome, round s = .ok outcome ∧
      ∀ batch next, outcome = .found batch next → invariant next)
    (h : invariant s) : ∃ found, collect round s = .ok found := by
  induction hsize : s.remaining using Nat.strongRecOn generalizing s with
  | ind size ih =>
      obtain ⟨outcome, houtcome, hnext⟩ := hround s h
      cases outcome with
      | finished => exact ⟨_, collect_of_finished houtcome⟩
      | found batch next =>
          by_cases hforward : next.remaining < s.remaining
          · obtain ⟨later, hlater⟩ :=
              ih next.remaining (hsize ▸ hforward) (hnext batch next rfl) rfl
            exact ⟨_, collect_of_found houtcome hforward hlater⟩
          · refine ⟨batch, ?_⟩
            rw [collect, houtcome, ok_bind]
            simp only [dif_neg hforward, pure_eq_ok]

theorem diagnostics_eq_singleton {found : Findings α} {problem : Problem}
    (h : found.problems = [problem]) : found.diagnostics = [problem.diagnostic] := by
  rw [Findings.diagnostics, h, List.map_singleton]

/-! ## One behind the other -/

/-- Things that stand one behind the other, from one offset to another. -/
inductive Successive (place : α → Nat → Nat → Prop) : Nat → List α → Nat → Prop
  | nil {low high : Nat} (h : low ≤ high) : Successive place low [] high
  | cons {low high start stop : Nat} {a : α} {later : List α} (hplace : place a start stop)
      (hlow : low ≤ start) (h : Successive place stop later high) :
      Successive place low (a :: later) high

namespace Successive

variable {place : α → Nat → Nat → Prop} {low mid high : Nat} {first later : List α}

theorem of_le {low' : Nat} (hlow : low' ≤ low) (h : Successive place low first high) :
    Successive place low' first high := by
  cases h with
  | nil h => exact .nil (Nat.le_trans hlow h)
  | cons hplace hstart h => exact .cons hplace (Nat.le_trans hlow hstart) h

theorem append (hfirst : Successive place low first mid)
    (hlater : Successive place mid later high) : Successive place low (first ++ later) high := by
  induction hfirst with
  | nil h => exact hlater.of_le h
  | cons hplace hlow _ ih => exact .cons hplace hlow (ih hlater)

theorem exists_place (h : Successive place low first high) :
    ∀ a ∈ first, ∃ start stop, place a start stop := by
  induction h with
  | nil => exact List.forall_mem_nil _
  | cons hplace _ _ ih => exact List.forall_mem_cons.mpr ⟨⟨_, _, hplace⟩, ih⟩

end Successive

/-- What the rounds of a run find one behind the other, the run finds so. -/
theorem successive_of_collect (invariant : Cursor → Prop) {place : α → Nat → Nat → Prop}
    {high : Nat} (hhigh : ∀ s, invariant s → s.pos ≤ high)
    (hround : ∀ s batch next, invariant s → round s = .ok (.found batch next) →
      next.remaining < s.remaining ∧ invariant next ∧
        Successive place s.pos batch.items next.pos)
    {found : Findings α} (hs : invariant s) (h : collect round s = .ok found) :
    Successive place s.pos found.items high := by
  refine collect_induction invariant
    (motive := fun s found => Successive place s.pos found.items high) ?_ ?_ hs h
  · intro s hs _
    exact .nil (hhigh s hs)
  · intro s batch next hs hround'
    obtain ⟨hforward, hnext, hbatch⟩ := hround s batch next hs hround'
    exact ⟨hforward, hnext, fun later hlater => hbatch.append hlater⟩

/-! ## Two runs -/

/-- Two rounds that are both the last, or both go on with related findings and cursors. -/
inductive RoundsAgree (findings : Findings α → Findings α → Prop)
    (cursors : Cursor → Cursor → Prop) : Round α → Round α → Prop
  | finished : RoundsAgree findings cursors .finished .finished
  | found {batch batch' : Findings α} {next next' : Cursor} (hbatch : findings batch batch')
      (hnext : cursors next next') :
      RoundsAgree findings cursors (.found batch next) (.found batch' next')

/-- Two runs agree if each round of the one agrees with a round of the other, and none stays
where it is. -/
theorem agree_collect {findings : Findings α → Findings α → Prop}
    {cursors : Cursor → Cursor → Prop} (hnil : findings {} {})
    (happend : ∀ {a a' b b'}, findings a a' → findings b b' → findings (a ++ b) (a' ++ b'))
    (hround : ∀ s s', cursors s s' → Agree (RoundsAgree findings cursors) (round s) (round s'))
    (hforward : ∀ s s', cursors s s' →
      (∀ batch next, round s = .ok (.found batch next) → next.remaining < s.remaining) ∧
        ∀ batch next, round s' = .ok (.found batch next) → next.remaining < s'.remaining)
    {s s' : Cursor} (h : cursors s s') : Agree findings (collect round s) (collect round s') := by
  induction hsize : s.remaining using Nat.strongRecOn generalizing s s' with
  | ind size ih =>
      have hagree := hround s s' h
      obtain ⟨hless, hless'⟩ := hforward s s' h
      generalize hs : round s = outcome, hs' : round s' = outcome' at hagree hless hless'
      cases hagree with
      | error cut cut' =>
          rw [collect, collect, hs, hs']
          exact .error cut cut'
      | ok hrounds =>
          cases hrounds with
          | finished =>
              rw [collect_of_finished hs, collect_of_finished hs']
              exact .ok hnil
          | @found batch batch' next next' hbatch hnext =>
              have hless := hless batch next rfl
              have hless' := hless' batch' next' rfl
              have hlater := ih next.remaining (hsize ▸ hless) hnext rfl
              generalize hcollect : collect round next = later,
                hcollect' : collect round next' = later' at hlater
              cases hlater with
              | ok hlater =>
                  rw [collect_of_found hs hless hcollect, collect_of_found hs' hless' hcollect']
                  exact .ok (happend hbatch hlater)
              | error cut cut' =>
                  rw [collect, collect, hs, hs', ok_bind, ok_bind]
                  simp only [dif_pos hless, dif_pos hless', hcollect, hcollect']
                  exact .error cut cut'

end HeaderBindings.Header
