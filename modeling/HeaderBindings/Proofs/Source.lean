import HeaderBindings.Proofs.Text
import HeaderBindings.Source

/-! # Lines and columns

The line table of a file tells for the offset of each character how many newlines stand before
it and how many bytes of its line do. No subtraction falls below zero on the way. -/

namespace HeaderBindings

open List Text

/-- What follows the last newline of a text. -/
def Text.lastLine (t : Text) : Text := (splitTrailing (· != '\n') t).2

theorem Text.exists_append_lastLine (t : Text) :
    ∃ front, t = front ++ lastLine t ∧ '\n' ∉ lastLine t ∧
      (front = [] ∨ ∃ lines, front = lines ++ ['\n']) := by
  refine ⟨_, (splitTrailing_fst_append_snd (· != '\n') t).symm, ?_, ?_⟩
  · intro hmem
    exact absurd (mem_snd_splitTrailing hmem) (by decide)
  · rcases List.eq_nil_or_concat' (splitTrailing (· != '\n') t).1 with hnil | ⟨lines, c, hlines⟩
    · exact .inl hnil
    · have hlast : c ∈ (splitTrailing (· != '\n') t).1.getLast? := by
        rw [hlines]
        exact List.getLast?_concat
      obtain rfl : c = '\n' := by
        simpa using eq_false_of_mem_getLast?_splitTrailing hlast
      exact .inr ⟨lines, hlines⟩

namespace SourceFile

/-! ## Starts of lines -/

theorem startsAfterNewlines_append (offset : Nat) (s t : Text) :
    startsAfterNewlines offset (s ++ t) =
      startsAfterNewlines offset s ++ startsAfterNewlines (offset + size s) t := by
  induction s generalizing offset with
  | nil => simp [startsAfterNewlines]
  | cons c s ih =>
      rw [List.cons_append, startsAfterNewlines, startsAfterNewlines, ih, size_cons,
        ← Nat.add_assoc]
      split <;> rfl

theorem length_startsAfterNewlines (offset : Nat) (t : Text) :
    (startsAfterNewlines offset t).length = t.count '\n' := by
  induction t generalizing offset with
  | nil => rfl
  | cons c t ih =>
      rw [startsAfterNewlines, List.count_cons]
      split
      next hc => simp [hc, ih]
      next hc => simp [hc, ih]

/-- A line starts behind its newline and no further than the text reaches. -/
theorem bounds_of_mem_startsAfterNewlines {offset start : Nat} {t : Text}
    (h : start ∈ startsAfterNewlines offset t) : offset < start ∧ start ≤ offset + size t := by
  induction t generalizing offset with
  | nil => exact absurd h List.not_mem_nil
  | cons c t ih =>
      have hc := one_le_utf8Size c
      have hlater : start ∈ startsAfterNewlines (offset + c.utf8Size) t →
          offset < start ∧ start ≤ offset + size (c :: t) := by
        intro h
        have := ih h
        rw [size_cons]
        omega
      rw [startsAfterNewlines] at h
      split at h
      · rcases List.mem_cons.mp h with rfl | h
        · rw [size_cons]
          omega
        · exact hlater h
      · exact hlater h

theorem startsAfterNewlines_of_not_mem (offset : Nat) {t : Text} (h : '\n' ∉ t) :
    startsAfterNewlines offset t = [] := by
  rw [← List.length_eq_zero_iff, length_startsAfterNewlines, List.count_eq_zero]
  exact h

theorem getLast?_startsAfterNewlines (t : Text) :
    (0 :: startsAfterNewlines 0 t).getLast? = some (size t - size (lastLine t)) := by
  obtain ⟨front, ht, hline, hfront⟩ := exists_append_lastLine t
  have hsize : size t - size (lastLine t) = size front := by
    rw [← Nat.add_sub_cancel (size front) (size (lastLine t)), ← size_append, ← ht]
  have hstarts : startsAfterNewlines 0 t = startsAfterNewlines 0 front := by
    rw [ht, startsAfterNewlines_append, startsAfterNewlines_of_not_mem _ hline, List.append_nil]
  rw [hsize, hstarts]
  rcases hfront with rfl | ⟨lines, rfl⟩
  · rfl
  · have hlast : startsAfterNewlines (0 + size lines) ['\n'] = [size (lines ++ ['\n'])] := by
      simp [startsAfterNewlines]
    rw [startsAfterNewlines_append, hlast, ← List.cons_append, List.getLast?_concat]

/-! ## Offsets -/

/-- The offset at which the line of an offset starts, which is taken from it to give the column. -/
def lineStart (file : SourceFile) (offset : UInt32) : UInt32 :=
  (file.lineStarts.takeWhile (· ≤ offset)).getLast?.getD 0

theorem toNat_toUInt32 {n : Nat} (h : n < 4294967296) : n.toUInt32.toNat = n :=
  UInt32.toNat_ofNat_of_lt' (by simpa only [UInt32.size] using h)

variable {file : SourceFile} {before behind : Text}

theorem takeWhile_lineStarts (hcontent : file.content = before ++ behind)
    (hsize : size file.content < 4294967296) :
    file.lineStarts.takeWhile (· ≤ (size before).toUInt32) =
      (0 :: startsAfterNewlines 0 before).map Nat.toUInt32 := by
  have hcut : size before + size behind < 4294967296 := by
    rwa [← size_append, ← hcontent]
  have hle : ∀ start ≤ size before + size behind,
      (start.toUInt32 ≤ (size before).toUInt32 ↔ start ≤ size before) := by
    intro start hstart
    rw [UInt32.le_iff_toNat_le, toNat_toUInt32 (by omega), toNat_toUInt32 (by omega)]
  have hreached : ∀ start ∈ (0 :: startsAfterNewlines 0 before).map Nat.toUInt32,
      decide (start ≤ (size before).toUInt32) = true := by
    intro start hstart
    obtain ⟨n, hn, rfl⟩ := List.mem_map.mp hstart
    have hbound : n ≤ size before := by
      rcases List.mem_cons.mp hn with rfl | hn
      · exact Nat.zero_le _
      · have := bounds_of_mem_startsAfterNewlines hn
        omega
    exact decide_eq_true ((hle n (by omega)).mpr hbound)
  have hlater : ∀ start ∈ (startsAfterNewlines (0 + size before) behind).map Nat.toUInt32,
      decide (start ≤ (size before).toUInt32) = false := by
    intro start hstart
    obtain ⟨n, hn, rfl⟩ := List.mem_map.mp hstart
    have := bounds_of_mem_startsAfterNewlines hn
    exact decide_eq_false fun h => by
      have := (hle n (by omega)).mp h
      omega
  rw [lineStarts, hcontent, startsAfterNewlines_append, List.map_append, ← List.cons_append,
    show (0 : UInt32) :: (startsAfterNewlines 0 before).map Nat.toUInt32 =
      (0 :: startsAfterNewlines 0 before).map Nat.toUInt32 from rfl,
    takeWhile_append_of_head? hreached fun start hstart =>
      hlater start (List.mem_of_mem_head? hstart)]

/-- The line of an offset starts behind the last newline before it, and not behind the offset. -/
theorem lineStart_eq (hcontent : file.content = before ++ behind)
    (hsize : size file.content < 4294967296) :
    file.lineStart (size before).toUInt32 = (size before - size (lastLine before)).toUInt32 := by
  rw [lineStart, takeWhile_lineStarts hcontent hsize, List.getLast?_map,
    getLast?_startsAfterNewlines]
  rfl

theorem lineStart_le (hcontent : file.content = before ++ behind)
    (hsize : size file.content < 4294967296) :
    file.lineStart (size before).toUInt32 ≤ (size before).toUInt32 := by
  have hcut : size before + size behind < 4294967296 := by
    rwa [← size_append, ← hcontent]
  rw [lineStart_eq hcontent hsize, UInt32.le_iff_toNat_le, toNat_toUInt32 (by omega),
    toNat_toUInt32 (by omega)]
  exact Nat.sub_le _ _

theorem size_lastLine_le (t : Text) : size (lastLine t) ≤ size t := by
  obtain ⟨front, ht, -, -⟩ := exists_append_lastLine t
  have hsize := congrArg size ht
  rw [size_append] at hsize
  omega

/-- The line of an offset is told by the newlines before it, the column by the bytes behind the
last of them. -/
theorem lineColumn_eq (hcontent : file.content = before ++ behind)
    (hsize : size file.content < 4294967296) :
    file.lineColumn (size before).toUInt32 =
      ((before.count '\n').toUInt32, (size (lastLine before)).toUInt32) := by
  have hcut : size before + size behind < 4294967296 := by
    rwa [← size_append, ← hcontent]
  have hlast := size_lastLine_le before
  have hcolumn : (size before).toUInt32 - file.lineStart (size before).toUInt32 =
      (size (lastLine before)).toUInt32 := by
    rw [← UInt32.toNat_inj, UInt32.toNat_sub_of_le _ _ (lineStart_le hcontent hsize),
      lineStart_eq hcontent hsize, toNat_toUInt32 (by omega), toNat_toUInt32 (by omega),
      toNat_toUInt32 (by omega)]
    omega
  have hline : (file.lineStarts.takeWhile (· ≤ (size before).toUInt32)).length - 1 =
      before.count '\n' := by
    rw [takeWhile_lineStarts hcontent hsize, List.length_map, List.length_cons,
      length_startsAfterNewlines, Nat.add_sub_cancel]
  exact Prod.ext (congrArg Nat.toUInt32 hline) hcolumn

theorem count_newline_le_size (t : Text) : t.count '\n' ≤ size t := by
  induction t with
  | nil => exact Nat.le_refl 0
  | cons c t ih =>
      have := one_le_utf8Size c
      rw [List.count_cons, size_cons]
      split <;> omega

theorem location_eq {c : Char} (hcontent : file.content = before ++ c :: behind)
    (hsize : size file.content < 4294967296) :
    file.location (size before).toUInt32 =
      file.path ++ ":" ++ Nat.toDigits 10 (before.count '\n' + 1) ++ ":" ++
        Nat.toDigits 10 (size (lastLine before) + 1) := by
  have hcut : size before + (c.utf8Size + size behind) < 4294967296 := by
    rwa [← size_cons, ← size_append, ← hcontent]
  have hc := one_le_utf8Size c
  have hsucc : ∀ n ≤ size before, (n.toUInt32 + 1).toNat = n + 1 := by
    intro n hn
    rw [UInt32.toNat_add, toNat_toUInt32 (by omega), UInt32.toNat_one]
    exact Nat.mod_eq_of_lt (by omega)
  rw [location, lineColumn_eq hcontent hsize]
  simp only [hsucc _ (count_newline_le_size before), hsucc _ (size_lastLine_le before)]

end SourceFile

end HeaderBindings
