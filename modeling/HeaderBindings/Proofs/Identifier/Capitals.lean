import HeaderBindings.Proofs.Identifier.Underscores
import Mathlib

/-! # Identifiers in capitals

The underscore form of an identifier can be written in capitals, as `VEHICLE_CLASS` for
`VehicleClass`. Read again, it gives the same underscore form unless a small letter stands right
behind a digit of the identifier: in capitals, a break goes between the two. -/

namespace HeaderBindings.Identifier

open List Text

/-- The underscore form in capitals. -/
def capitals (identifier : Text) : Text := (snakeCase identifier).map Char.toUpper

/-- No small letter stands right behind a digit. -/
def NoSmallBehindDigit (t : Text) : Prop :=
  t.IsChain fun c d => c.isDigit = true → d.isLower = false

instance (t : Text) : Decidable (NoSmallBehindDigit t) :=
  inferInstanceAs (Decidable (List.IsChain _ t))

theorem noSmallBehindDigit_of_forall {t : Text} (h : ∀ c ∈ t, c.isLower = false) :
    NoSmallBehindDigit t := by
  induction t with
  | nil => exact List.isChain_nil
  | cons c t ih =>
      have htail := ih fun d hd => h d (List.mem_cons_of_mem c hd)
      rw [NoSmallBehindDigit, List.isChain_cons]
      exact ⟨fun d hd _ => h d (List.mem_cons_of_mem c (List.mem_of_mem_head? hd)), htail⟩

/-! ## Characters -/

theorem not_isDigit_of_isAlpha {c : Char} (h : c.isAlpha = true) : c.isDigit = false := by
  simp only [Char.isAlpha, Char.isUpper, Char.isLower, ge_iff_le, UInt32.le_iff_toNat_le,
    Bool.or_eq_true, Bool.and_eq_true, decide_eq_true_eq] at h
  simp only [Char.isDigit, ge_iff_le, UInt32.le_iff_toNat_le, Bool.and_eq_false_iff,
    decide_eq_false_iff_not]
  have hupper : '9'.val.toNat < 'A'.val.toNat := by decide
  have hlower : '9'.val.toNat < 'a'.val.toNat := by decide
  omega

theorem isSmallOrDigit_toUpper (c : Char) : isSmallOrDigit c.toUpper = c.isDigit := by
  rw [isSmallOrDigit, Char.isLower_toUpper_eq_false, Bool.false_or]
  by_cases hlower : c.isLower = true
  · have halpha : c.isAlpha = true := by rw [Char.isAlpha, hlower, Bool.or_true]
    rw [not_isDigit_of_isAlpha halpha]
    apply not_isDigit_of_isAlpha
    rw [Char.isAlpha_toUpper_eq_isAlpha, halpha]
  · rw [Char.toUpper_eq_of_not_isLower hlower]

/-! ## Breaks among capitals -/

/-- Among capitals, a break goes between a digit and a letter only. -/
theorem startsBroken_map_toUpper (before c : Char) (rest : Text) :
    startsBroken before.toUpper (c.toUpper :: rest.map Char.toUpper) =
      (c.isAlpha && before.isDigit) := by
  have hopens : opensWord (c.toUpper :: rest.map Char.toUpper) = false := by
    cases rest with
    | nil => rfl
    | cons d rest =>
        change (c.toUpper.isUpper && d.toUpper.isLower) = false
        rw [Char.isLower_toUpper_eq_false, Bool.and_false]
  rw [startsBroken, hopens, Bool.and_false, Bool.or_false, Char.isUpper_toUpper_eq_isAlpha,
    isSmallOrDigit_toUpper]

/-- A text that is put in capitals, broken behind a character and put in lower case. -/
def readInCapitals (before : Char) (t : Text) : Text :=
  (breakBehind before.toUpper (t.map Char.toUpper)).map Char.toLower

theorem readInCapitals_cons (before c : Char) (rest : Text) :
    readInCapitals before (c :: rest) =
      if c.isAlpha && before.isDigit then '_' :: c.toLower :: readInCapitals c rest
      else c.toLower :: readInCapitals c rest := by
  have hbreak := startsBroken_map_toUpper before c rest
  unfold readInCapitals
  split
  next hletter =>
    rw [hletter] at hbreak
    rw [List.map_cons, breakBehind_of_startsBroken hbreak, List.map_cons, List.map_cons,
      Char.toLower_toUpper_eq_toLower]
    rfl
  next hletter =>
    rw [Bool.eq_false_iff.mpr hletter] at hbreak
    rw [List.map_cons, breakBehind_of_not_startsBroken hbreak, List.map_cons,
      Char.toLower_toUpper_eq_toLower]

/-- What is read in capitals has further breaks between digits and small letters. -/
theorem readInCapitals_eq_iff (before : Char) (t : Text) :
    readInCapitals before (breakBehind before t) = (breakBehind before t).map Char.toLower ↔
      NoSmallBehindDigit (before :: t) := by
  induction t generalizing before with
  | nil => exact iff_of_true rfl (List.isChain_singleton _)
  | cons c t ih =>
      rw [NoSmallBehindDigit, List.isChain_cons_cons, ← NoSmallBehindDigit, ← ih c]
      cases hbroken : startsBroken before (c :: t) with
      | true =>
          have hsmall := not_isLower_of_isUpper (isUpper_of_startsBroken hbroken)
          rw [breakBehind_of_startsBroken hbroken, readInCapitals_cons, readInCapitals_cons]
          simp [hsmall]
      | false =>
          rw [breakBehind_of_not_startsBroken hbroken, readInCapitals_cons, List.map_cons]
          cases hdigit : before.isDigit with
          | false => simp
          | true =>
              have hupper : c.isUpper = false := by
                rw [startsBroken, isSmallOrDigit, hdigit, Bool.or_true, Bool.and_true,
                  Bool.or_eq_false_iff] at hbroken
                exact hbroken.1
              rw [Char.isAlpha, hupper, Bool.false_or, Bool.and_true]
              cases hsmall : c.isLower with
              | false => simp
              | true =>
                  have hne : '_' ≠ c.toLower := by
                    rw [Char.toLower_eq_of_not_isUpper (by simp [hupper])]
                    rintro rfl
                    exact absurd hsmall (by decide)
                  simp [hne]

theorem map_breakBehind_eq_of_isPrefix {f g : Char → Char} (hf : f '_' = '_')
    (hg : (g '_').isUpper = false) {before : Char} {t behind : Text}
    (h : t <+: (breakBehind before (t.map g)).map f ++ behind) :
    (breakBehind before (t.map g)).map f = t := by
  induction t generalizing before with
  | nil => rfl
  | cons c t ih =>
      rw [List.map_cons] at h ⊢
      cases hbroken : startsBroken before (g c :: t.map g) with
      | true =>
          have hupper := isUpper_of_startsBroken hbroken
          rw [breakBehind_of_startsBroken hbroken, List.map_cons, hf, List.cons_append,
            List.cons_prefix_cons] at h
          rw [h.1, hg] at hupper
          cases hupper
      | false =>
          rw [breakBehind_of_not_startsBroken hbroken, List.map_cons] at h ⊢
          rw [List.cons_append, List.cons_prefix_cons] at h
          rw [← h.1, ih h.2]

/-! ## ASCII identifiers -/

theorem mem_breakBehind {before c : Char} {t : Text} (h : c ∈ breakBehind before t) :
    c = '_' ∨ c ∈ t := by
  induction t generalizing before with
  | nil => exact absurd h List.not_mem_nil
  | cons d t ih =>
      have hcons : c = '_' ∨ c = d ∨ c ∈ breakBehind d t := by
        rw [breakBehind] at h
        split at h <;> simp only [List.mem_cons] at h <;> tauto
      rcases hcons with hc | hc | hc
      · exact .inl hc
      · exact .inr (List.mem_cons.mpr (.inl hc))
      · exact (ih hc).imp_right (List.mem_cons_of_mem d)

theorem mem_breakBehind_of_mem {c : Char} {t : Text} (h : c ∈ t) (before : Char) :
    c ∈ breakBehind before t := by
  induction t generalizing before with
  | nil => exact absurd h List.not_mem_nil
  | cons d t ih =>
      have hcons : c ∈ d :: breakBehind d t := by
        rcases List.mem_cons.mp h with rfl | hc
        · exact List.mem_cons_self
        · exact List.mem_cons_of_mem d (ih hc d)
      rw [breakBehind]
      split
      · exact List.mem_cons_of_mem '_' hcons
      · exact hcons

section

variable {t : Text} (hascii : ∀ c ∈ t, c.toNat < 128)

include hascii

theorem forall_breakBehind_of_ascii : ∀ c ∈ breakBehind '\n' t, c.toNat < 128 := by
  intro c hc
  rcases mem_breakBehind hc with rfl | hc
  · decide
  · exact hascii c hc

theorem snakeCase_of_ascii : snakeCase t = (breakBehind '\n' t).map Char.toLower := by
  rw [snakeCase_eq_lowercase_breakApart, ← breakBehind_newline,
    lowercase_of_ascii (forall_breakBehind_of_ascii hascii)]

theorem capitals_of_ascii : capitals t = (breakBehind '\n' t).map Char.toUpper := by
  have hupper : Char.toUpper ∘ Char.toLower = Char.toUpper := by
    funext c
    exact Char.toUpper_toLower_eq_toUpper c
  rw [capitals, snakeCase_of_ascii hascii, List.map_map, hupper]

theorem forall_capitals_of_ascii : ∀ c ∈ capitals t, c.toNat < 128 := by
  have hall : ∀ n < 128, (Char.ofNat n).toUpper.toNat < 128 := by decide +kernel
  rw [capitals_of_ascii hascii]
  intro c hc
  obtain ⟨d, hd, rfl⟩ := List.mem_map.mp hc
  exact forall_ascii (fun c => c.toUpper.toNat < 128) hall
    (forall_breakBehind_of_ascii hascii d hd)

theorem toLower_mem_snakeCase {c : Char} (h : c ∈ t) : c.toLower ∈ snakeCase t := by
  rw [snakeCase_of_ascii hascii]
  exact List.mem_map_of_mem (mem_breakBehind_of_mem h '\n')

theorem toLower_mem_snakeCase_capitals {c : Char} (h : c ∈ t) :
    c.toLower ∈ snakeCase (capitals t) := by
  have hcapital : c.toUpper ∈ capitals t := by
    rw [capitals_of_ascii hascii]
    exact List.mem_map_of_mem (mem_breakBehind_of_mem h '\n')
  rw [← Char.toLower_toUpper_eq_toLower]
  exact toLower_mem_snakeCase (forall_capitals_of_ascii hascii) hcapital

/-! ## The underscore form of capitals -/

/-- Capitals have the same underscore form exactly if no small letter stands behind a digit. -/
theorem snakeCase_capitals_eq_iff :
    snakeCase (capitals t) = snakeCase t ↔ NoSmallBehindDigit t := by
  have hread : snakeCase (capitals t) = readInCapitals '\n' (breakBehind '\n' t) := by
    rw [snakeCase_of_ascii (forall_capitals_of_ascii hascii), capitals_of_ascii hascii]
    rfl
  have hchain : NoSmallBehindDigit ('\n' :: t) ↔ NoSmallBehindDigit t := by
    cases t with
    | nil => exact iff_of_true (List.isChain_singleton _) List.isChain_nil
    | cons c t =>
        rw [NoSmallBehindDigit, List.isChain_cons_cons]
        exact and_iff_right (fun hdigit => absurd hdigit (by decide))
  rw [hread, snakeCase_of_ascii hascii, readInCapitals_eq_iff, hchain]

theorem underscoreForm_capitals_ne_nil (h : ¬ NoSmallBehindDigit t) :
    underscoreForm (capitals t) ≠ [] := by
  intro hnil
  rw [underscoreForm, List.dropWhile_eq_nil_iff] at hnil
  apply h
  apply noSmallBehindDigit_of_forall
  intro c hc
  have hmark : c = '_' := by
    by_contra hne
    exact toLower_ne_underscore (hascii c hc) hne
      (beq_iff_eq.mp (hnil _ (toLower_mem_snakeCase_capitals hascii hc)))
  rw [hmark]
  rfl

/-- A name that its own capitals start with is in capitals already. -/
theorem capitals_eq_of_isPrefix {behind : Text} (h : t <+: capitals t ++ behind) :
    capitals t = t := by
  have hid : t.map id = t := List.map_id t
  rw [capitals_of_ascii hascii] at h ⊢
  have hprefix : t <+: (breakBehind '\n' (t.map id)).map Char.toUpper ++ behind := by
    rwa [hid]
  have hsame := map_breakBehind_eq_of_isPrefix (by decide) (by decide) hprefix
  rwa [hid] at hsame

/-- Capitals whose underscore form starts with that of the name have the same one. -/
theorem snakeCase_capitals_eq_of_isPrefix {behind : Text}
    (h : snakeCase t <+: snakeCase (capitals t) ++ behind) :
    snakeCase (capitals t) = snakeCase t := by
  rw [snakeCase_of_ascii (forall_capitals_of_ascii hascii)] at h ⊢
  exact map_breakBehind_eq_of_isPrefix (by decide) (by decide) h

end

end HeaderBindings.Identifier
