import HeaderBindings.Text.Basic

/-! Cutting text at separators and comparing texts. The order of texts is that of their code
points, which is also the order of their UTF-8 bytes. -/

namespace HeaderBindings.Text

/-- The pieces between separators; one more than there are separators. -/
def pieces (isSeparator : Char → Bool) : Text → List Text
  | [] => [[]]
  | c :: rest =>
    if isSeparator c then [] :: pieces isSeparator rest
    else match pieces isSeparator rest with
      | [] => [[c]]
      | first :: others => (c :: first) :: others

/-- What follows a leading text, if the text starts with it. -/
def afterStart? : (start t : Text) → Option Text
  | [], t => some t
  | _ :: _, [] => none
  | a :: start, b :: t => if a = b then afterStart? start t else none

/-- Whether a text starts with another. -/
def startsWith (start t : Text) : Bool := (afterStart? start t).isSome

/-- A text without the given start, or unchanged if it starts otherwise. -/
def dropStart (start t : Text) : Text := (afterStart? start t).getD t

/-- Whether `part` occurs in a text. -/
def occursIn (part : Text) : Text → Bool
  | [] => part.isEmpty
  | c :: rest => startsWith part (c :: rest) || occursIn part rest

/-- The first text stands strictly before the second in code point order. -/
def precedes : Text → Text → Bool
  | _, [] => false
  | [], _ :: _ => true
  | a :: s, b :: t => if a = b then precedes s t else a.toNat < b.toNat

/-- The characters up to and including the last one that fails the test are the first part, the
trailing run of characters that pass it is the second. -/
def splitTrailing (test : Char → Bool) (t : Text) : Text × Text :=
  ((t.reverse.dropWhile test).reverse, (t.reverse.takeWhile test).reverse)

theorem afterStart?_append (start t : Text) : afterStart? start (start ++ t) = some t := by
  induction start with
  | nil => rfl
  | cons a start ih => simp [afterStart?, ih]

theorem eq_append_of_afterStart? {start t rest : Text} (h : afterStart? start t = some rest) :
    t = start ++ rest := by
  induction start generalizing t with
  | nil => simpa [afterStart?] using h
  | cons a start ih =>
      cases t with
      | nil => simp [afterStart?] at h
      | cons b t =>
          by_cases hab : a = b
          · subst hab
            simp only [afterStart?, if_true] at h
            simp [ih h]
          · simp [afterStart?, hab] at h

theorem pieces_ne_nil (isSeparator : Char → Bool) (t : Text) : pieces isSeparator t ≠ [] := by
  cases t with
  | nil => simp [pieces]
  | cons c rest =>
      simp only [pieces]
      split
      · simp
      · split <;> simp

theorem precedes_irrefl (t : Text) : precedes t t = false := by
  induction t with
  | nil => rfl
  | cons c rest ih => simp [precedes, ih]

theorem precedes_trans {s t u : Text} (hst : precedes s t = true) (htu : precedes t u = true) :
    precedes s u = true := by
  induction s generalizing t u with
  | nil =>
      cases t with
      | nil => simp [precedes] at hst
      | cons b t => cases u with
        | nil => simp [precedes] at htu
        | cons d u => rfl
  | cons a s ih =>
      cases t with
      | nil => simp [precedes] at hst
      | cons b t => cases u with
        | nil => simp [precedes] at htu
        | cons d u =>
            simp only [precedes] at hst htu ⊢
            by_cases hab : a = b
            · subst hab
              by_cases had : a = d
              · subst had
                simp only [if_true] at hst htu ⊢
                exact ih hst htu
              · simpa [had] using htu
            · by_cases hbd : b = d
              · subst hbd
                simpa [hab] using hst
              · simp only [hab, hbd, if_false, decide_eq_true_eq] at hst htu
                have had : a ≠ d := by
                  intro h
                  subst h
                  omega
                simp only [had, if_false, decide_eq_true_eq]
                omega

theorem precedes_total {s t : Text} (h : s ≠ t) : precedes s t = true ∨ precedes t s = true := by
  induction s generalizing t with
  | nil =>
      cases t with
      | nil => exact absurd rfl h
      | cons b t => exact .inl rfl
  | cons a s ih =>
      cases t with
      | nil => exact .inr rfl
      | cons b t =>
          simp only [precedes]
          by_cases hab : a = b
          · subst hab
            simp only [if_true]
            exact ih (fun e => h (by rw [e]))
          · have hba : b ≠ a := fun e => hab e.symm
            simp only [hab, hba, if_false, decide_eq_true_eq]
            have hne : a.toNat ≠ b.toNat := fun e =>
              hab (Char.ext (UInt32.toNat_inj.1 e))
            omega

end HeaderBindings.Text
