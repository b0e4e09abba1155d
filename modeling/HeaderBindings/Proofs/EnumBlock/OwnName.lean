import HeaderBindings.Proofs.EnumBlock.Remainder
import HeaderBindings.Proofs.Header.Head
import HeaderBindings.Proofs.Identifier.Capitals

/-! # Entries in capitals

An entry in capitals starts with the underscore form of its enumeration's own name, an underscore
between the two: `VEHICLE_CLASS_SEDAN` of `VehicleClass` is bound as `sedan`. The own name is
missed where a small letter stands behind one of its digits. It is removed twice where it starts
with an underscore and is written in capitals itself, if the rest of the entry goes on with it. -/

namespace HeaderBindings.EnumBlock

open List Text Identifier

/-- Capitals, digits and underscores only. -/
def InCapitals (t : Text) : Prop := ∀ c ∈ t, c.isUpper = true ∨ c.isDigit = true ∨ c = '_'

instance (t : Text) : Decidable (InCapitals t) := List.decidableBAll _ t

/-- The own name is removed as it is written, and what then follows is taken for it again. -/
def RemovedTwice (own rest : Text) : Prop :=
  capitals own = own ∧ snakeCase own ++ ['_'] <+: '_' :: snakeCase rest

instance (own rest : Text) : Decidable (RemovedTwice own rest) :=
  inferInstanceAs (Decidable (_ ∧ _))

/-! ## The rest of an entry -/

section

variable {rest : Text}

/-- A rest in capitals that follows an underscore starts no word there. -/
theorem startsBroken_underscore (h : InCapitals rest) : startsBroken '_' rest = false := by
  match rest with
  | [] => rfl
  | [c] => simp [startsBroken, opensWord, isSmallOrDigit]
  | c :: d :: rest =>
      have hsmall : d.isLower = false := by
        rcases h d (by simp) with hupper | hdigit | rfl
        · exact not_isLower_of_isUpper hupper
        · apply Bool.eq_false_iff.mpr
          intro hlower
          rw [not_isDigit_of_isAlpha (by rw [Char.isAlpha, hlower, Bool.or_true])] at hdigit
          cases hdigit
        · rfl
      simp [startsBroken, opensWord, isSmallOrDigit, hsmall]

theorem dropWhile_snakeCase (h : rest.head? ≠ some '_') :
    (snakeCase rest).dropWhile (· == '_') = snakeCase rest := by
  cases rest with
  | nil => rw [snakeCase_nil, List.dropWhile_nil]
  | cons c rest =>
      have hc : c ≠ '_' := fun heq => h (congrArg some heq)
      have hform := underscoreForm_eq (c :: rest)
      rw [underscoreForm] at hform
      rw [hform, breakApart_cons, List.dropWhile_cons_of_neg (by simpa using hc),
        ← breakApart_cons, snakeCase_eq_lowercase_breakApart]

end

/-! ## The own name -/

theorem append_cons_ne_self (front : Text) (c : Char) (t : Text) : front ++ c :: t ≠ t := by
  intro heq
  have hlength := congrArg List.length heq
  rw [List.length_append, List.length_cons] at hlength
  omega

section

variable {own rest : Text} (hbroken : startsBroken '_' rest = false) (hne : rest ≠ [])
  (hhead : rest.head? ≠ some '_')

include hbroken hne hhead

/-- The own name, removed as written, is all that is removed unless it follows again. -/
theorem boundName_eq_iff_of_capitals_eq (hown : own ≠ []) (h : capitals own = own) :
    boundName own (capitals own ++ '_' :: rest) = snakeCase rest ↔
      ¬ snakeCase own ++ ['_'] <+: '_' :: snakeCase rest := by
  have hafter : snakeCase (dropStart own (capitals own ++ '_' :: rest)) =
      '_' :: snakeCase rest := by
    rw [h, dropStart_append, ← List.nil_append ('_' :: rest),
      snakeCase_append_underscore _ hbroken, snakeCase_nil, List.nil_append]
  by_cases hagain : snakeCase own ++ ['_'] <+: '_' :: snakeCase rest
  · refine iff_of_false ?_ (not_not_intro hagain)
    obtain ⟨behind, hbehind⟩ := hagain
    have hlength := congrArg List.length hbehind
    have hpos := List.length_pos_of_ne_nil (snakeCase_ne_nil hown)
    have hshort := (List.dropWhile_suffix (· == '_') (l := behind)).length_le
    intro heq
    rw [boundName_eq_ite hafter (by rw [← hbehind, dropStart_append])] at heq
    split at heq
    · rw [h, snakeCase_append_underscore _ hbroken] at heq
      exact append_cons_ne_self _ _ _ heq
    · rw [heq] at hshort
      simp only [List.length_append, List.length_cons, List.length_nil] at hlength
      omega
  · refine iff_of_true ?_ hagain
    refine boundName_eq_of_ne_nil hafter ?_ (snakeCase_ne_nil hne)
    rw [dropStart_of_not_isPrefix hagain]
    exact dropWhile_snakeCase hhead

/-- An own name that is not written in capitals is removed exactly if its capitals are read as it
is. -/
theorem boundName_eq_iff_of_capitals_ne (hascii : ∀ c ∈ own, c.toNat < 128)
    (h : capitals own ≠ own) :
    boundName own (capitals own ++ '_' :: rest) = snakeCase rest ↔ NoSmallBehindDigit own := by
  have hafter : snakeCase (dropStart own (capitals own ++ '_' :: rest)) =
      snakeCase (capitals own) ++ '_' :: snakeCase rest := by
    rw [dropStart_of_not_isPrefix (fun hstart => h (capitals_eq_of_isPrefix hascii hstart)),
      snakeCase_append_underscore _ hbroken]
  rw [← snakeCase_capitals_eq_iff hascii]
  by_cases hsame : snakeCase (capitals own) = snakeCase own
  · refine iff_of_true ?_ hsame
    refine boundName_eq_of_ne_nil hafter ?_ (snakeCase_ne_nil hne)
    rw [hsame, List.append_cons (snakeCase own) '_' (snakeCase rest), dropStart_append]
    exact dropWhile_snakeCase hhead
  · refine iff_of_false ?_ hsame
    have hmissed :
        ¬ snakeCase own ++ ['_'] <+: snakeCase (capitals own) ++ '_' :: snakeCase rest := by
      intro hstart
      exact hsame (snakeCase_capitals_eq_of_isPrefix hascii
        ((List.prefix_append _ _).trans hstart))
    have hkept := underscoreForm_capitals_ne_nil hascii
      (fun hsmall => hsame ((snakeCase_capitals_eq_iff hascii).mpr hsmall))
    have hshort : (snakeCase (capitals own) ++ '_' :: snakeCase rest).dropWhile (· == '_') =
        underscoreForm (capitals own) ++ '_' :: snakeCase rest := by
      rw [List.dropWhile_append, ← underscoreForm, if_neg (by simpa using hkept)]
    rw [boundName_eq_of_ne_nil hafter (by rw [dropStart_of_not_isPrefix hmissed, hshort])
      (by simp)]
    exact append_cons_ne_self _ _ _

end

/-- An entry that goes on behind its enumeration's own name in capitals is bound under the rest of
its name exactly if no small letter stands behind a digit of the own name, and the own name is not
removed twice. -/
theorem boundName_capitals_eq_iff {own rest : Text} (hown : Header.IsName own) (hne : rest ≠ [])
    (hcapitals : InCapitals rest) (hhead : rest.head? ≠ some '_') :
    boundName own (capitals own ++ '_' :: rest) = snakeCase rest ↔
      NoSmallBehindDigit own ∧ ¬ RemovedTwice own rest := by
  have hascii : ∀ c ∈ own, c.toNat < 128 := by
    intro c hc
    have := toNat_of_isNameChar (hown.isNameChar c hc)
    omega
  have hbroken := startsBroken_underscore hcapitals
  by_cases hwritten : capitals own = own
  · rw [boundName_eq_iff_of_capitals_eq hbroken hne hhead hown.ne_nil hwritten]
    have hsmall : NoSmallBehindDigit own :=
      (snakeCase_capitals_eq_iff hascii).mp (congrArg snakeCase hwritten)
    exact ⟨fun hagain => ⟨hsmall, fun htwice => hagain htwice.2⟩,
      fun h hagain => h.2 ⟨hwritten, hagain⟩⟩
  · rw [boundName_eq_iff_of_capitals_ne hbroken hne hhead hascii hwritten]
    exact (and_iff_left fun htwice => hwritten htwice.1).symm

/-- Both the own name and the rest have digits with capitals behind them. -/
theorem boundName_capitals_eq_iff_weapon :
    let own : Text := "Weapon2Hand"
    let rest : Text := "A2B"
    Header.IsName own ∧ rest ≠ [] ∧ InCapitals rest ∧ rest.head? ≠ some '_' ∧
      (boundName own (capitals own ++ '_' :: rest) = snakeCase rest ↔
        NoSmallBehindDigit own ∧ ¬ RemovedTwice own rest) ∧
      NoSmallBehindDigit own ∧ ¬ RemovedTwice own rest := by
  intro own rest
  have hown : Header.IsName own := by decide
  have hne : rest ≠ [] := by decide
  have hcapitals : InCapitals rest := by decide
  have hhead : rest.head? ≠ some '_' := by decide
  refine ⟨hown, hne, hcapitals, hhead, ?_, by decide, by decide +kernel⟩
  exact boundName_capitals_eq_iff hown hne hcapitals hhead

/-- The capitals of `Vec3d` are `VEC3D`, which is read as `vec3_d`. -/
theorem not_forall_boundName_capitals_eq :
    ¬ ∀ own rest : Text, Header.IsName own → rest ≠ [] → InCapitals rest →
      rest.head? ≠ some '_' →
      boundName own (capitals own ++ '_' :: rest) = snakeCase rest := by
  intro h
  have hmissed := h "Vec3d" "X" (by decide) (by decide) (by decide) (by decide)
  revert hmissed
  decide +kernel

end HeaderBindings.EnumBlock
