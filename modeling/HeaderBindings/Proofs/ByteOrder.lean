import HeaderBindings.Keyed
import Mathlib.Data.List.Basic

/-! # The order of texts is that of their bytes

Texts are compared by code points. In UTF-8 the bytes of a larger code point are larger,
whatever follows them, so a list in ascending order of its keys also ascends byte by byte. -/

namespace HeaderBindings

/-- The UTF-8 form of a text. -/
def Text.bytes (t : Text) : List UInt8 := t.flatMap String.utf8EncodeChar

namespace Text

@[simp] theorem bytes_cons (c : Char) (t : Text) :
    bytes (c :: t) = String.utf8EncodeChar c ++ bytes t := rfl

@[simp] theorem bytes_append (s t : Text) : bytes (s ++ t) = bytes s ++ bytes t :=
  List.flatMap_append

theorem cons_ofNat_lt_cons_iff {m n : Nat} {k l : List UInt8} (hm : m < 256) (hn : n < 256) :
    UInt8.ofNat m :: k < UInt8.ofNat n :: l ↔ m < n ∨ m = n ∧ k < l := by
  rw [List.cons_lt_cons_iff, UInt8.lt_iff_toNat_lt, ← UInt8.toNat_inj, UInt8.toNat_ofNat',
    UInt8.toNat_ofNat', Nat.mod_eq_of_lt hm, Nat.mod_eq_of_lt hn]

theorem toNat_val_lt (c : Char) : c.val.toNat < 0x110000 := by
  have h := c.valid
  simp only [UInt32.isValidChar, Nat.isValidChar] at h
  omega

/-- Numbers differ first in the higher places or in the last six bits. -/
theorem div_lt_div_or_mod_lt_mod {m n : Nat} (h : m < n) :
    m / 64 < n / 64 ∨ m / 64 = n / 64 ∧ m % 64 < n % 64 := by
  omega

/-- The bytes of the smaller character come first, whatever follows the two: a longer form starts
with a larger byte, and forms of one length differ in some group. -/
theorem utf8EncodeChar_append_lt {c d : Char} (h : c.toNat < d.toNat) (k l : List UInt8) :
    String.utf8EncodeChar c ++ k < String.utf8EncodeChar d ++ l := by
  have hc := toNat_val_lt c
  have hd := toNat_val_lt d
  have hlt : c.val.toNat < d.val.toNat := h
  simp only [String.utf8EncodeChar]
  generalize c.val.toNat = v at hc hlt
  generalize d.val.toNat = w at hd hlt
  have hv : v / 4096 = v / 64 / 64 ∧ v / 262144 = v / 64 / 64 / 64 := by omega
  have hw : w / 4096 = w / 64 / 64 ∧ w / 262144 = w / 64 / 64 / 64 := by omega
  have hv' : v / 64 / 64 / 64 % 8 = v / 64 / 64 / 64 := Nat.mod_eq_of_lt (by omega)
  have hw' : w / 64 / 64 / 64 % 8 = w / 64 / 64 / 64 := Nat.mod_eq_of_lt (by omega)
  rw [hv.1, hv.2, hv', hw.1, hw.2, hw']
  have hgroups : v / 64 / 64 / 64 < w / 64 / 64 / 64 ∨
      v / 64 / 64 / 64 = w / 64 / 64 / 64 ∧ (v / 64 / 64 % 64 < w / 64 / 64 % 64 ∨
      v / 64 / 64 = w / 64 / 64 ∧ (v / 64 % 64 < w / 64 % 64 ∨
      v / 64 = w / 64 ∧ v % 64 < w % 64)) := by
    have h₁ := div_lt_div_or_mod_lt_mod hlt
    have h₂ := @div_lt_div_or_mod_lt_mod (v / 64) (w / 64)
    have h₃ := @div_lt_div_or_mod_lt_mod (v / 64 / 64) (w / 64 / 64)
    grind
  split_ifs <;> simp only [List.cons_append, List.nil_append] <;>
    repeat rw [cons_ofNat_lt_cons_iff (by omega) (by omega)]
  all_goals omega

theorem bytes_lt_of_precedes {s t : Text} (h : precedes s t = true) : bytes s < bytes t := by
  induction s generalizing t with
  | nil =>
      cases t with
      | nil => exact absurd h (by simp [precedes])
      | cons d t =>
          have hne : bytes (d :: t) ≠ [] := by simp [String.utf8EncodeChar_ne_nil]
          obtain ⟨b, rest, hb⟩ := List.exists_cons_of_ne_nil hne
          rw [hb]
          exact List.nil_lt_cons b rest
  | cons c s ih =>
      cases t with
      | nil => exact absurd h (by simp [precedes])
      | cons d t =>
          rw [precedes] at h
          split at h
          next heq =>
            subst heq
            rw [bytes_cons, bytes_cons]
            exact List.append_left_lt (ih h)
          next hne => exact utf8EncodeChar_append_lt (by simpa using h) _ _

/-- The order of texts is the lexicographic order of their bytes. -/
theorem precedes_iff_bytes_lt {s t : Text} : precedes s t = true ↔ bytes s < bytes t := by
  refine ⟨bytes_lt_of_precedes, ?_⟩
  intro h
  have hne : s ≠ t := by
    rintro rfl
    exact List.lt_irrefl _ h
  rcases precedes_total hne with hst | hts
  · exact hst
  · exact absurd h (List.lt_asymm (bytes_lt_of_precedes hts))

end Text

end HeaderBindings
