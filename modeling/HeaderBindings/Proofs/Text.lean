import HeaderBindings.Text.Blank
import HeaderBindings.Text.Name
import Mathlib.Data.Bool.AllAny
import Mathlib.Data.List.Infix
import Mathlib.Data.List.TakeWhile

/-! # Cutting text

A text that is put together from parts is cut back into these parts: at offsets, at runs of
characters of one class, around the last blank and into words. -/

namespace HeaderBindings.Text

open List

/-! ## Offsets -/

theorem slice_eq_ok {t : Text} {start stop : Nat} (before part after : Text)
    (h : t = before ++ part ++ after) (hstart : start = size before)
    (hstop : stop = size before + size part) : slice start stop t = .ok part := by
  subst h hstart hstop
  exact slice_append before part after

theorem slice_behind_mark {c : Char} (hc : c.utf8Size = 1) (front part rest : Text) :
    slice (size front + 1) (size front + c.utf8Size + size part) (front ++ c :: (part ++ rest)) =
      .ok part := by
  have hstart : size front + c.utf8Size = size (front ++ [c]) := (size_append front [c]).symm
  rw [← hc, hstart]
  exact slice_eq_ok (front ++ [c]) part rest (by simp) rfl rfl

theorem size_pos_of_ne_nil {t : Text} (h : t ≠ []) : 0 < size t := by
  obtain ⟨c, rest, rfl⟩ := List.exists_cons_of_ne_nil h
  exact Nat.add_pos_left (one_le_utf8Size c) (size rest)

theorem splitFrom_append (before after : Text) :
    splitFrom (size before) (before ++ after) = (before, after) := by
  induction before with
  | nil => cases after <;> rfl
  | cons c before ih =>
      obtain ⟨n, hn⟩ := Nat.exists_eq_add_of_le' (one_le_utf8Size c)
      have hsize : size (c :: before) = (n + size before) + 1 := by
        simp only [size_cons]
        omega
      rw [hsize, List.cons_append, splitFrom,
        show n + size before + 1 - c.utf8Size = size before by omega, ih]

theorem within_append (part after : Text) : within (size part) (part ++ after) = part := by
  induction part with
  | nil =>
      cases after with
      | nil => rfl
      | cons c after =>
          have hpos := one_le_utf8Size c
          rw [List.nil_append, within, size_nil, if_neg (by omega)]
  | cons c part ih =>
      rw [List.cons_append, within, size_cons, if_pos (by omega), Nat.add_sub_cancel_left, ih]

theorem splitFrom_fst_append_snd (offset : ℕ) (t : Text) :
    (splitFrom offset t).1 ++ (splitFrom offset t).2 = t := by
  induction t generalizing offset with
  | nil => cases offset <;> rfl
  | cons c t ih =>
      cases offset with
      | zero => rfl
      | succ offset => rw [splitFrom, List.cons_append, ih]

/-- Splitting passes no boundary at the offset or behind it. -/
theorem le_size_iff_splitFrom {offset : ℕ} {front back : Text} (h : offset ≤ size (front ++ back)) :
    offset ≤ size front ↔ size (splitFrom offset (front ++ back)).1 ≤ size front := by
  induction front generalizing offset with
  | nil =>
      cases offset with
      | zero => simp [splitFrom]
      | succ offset =>
          cases back with
          | nil => exact absurd h (by simp)
          | cons c back =>
              have hc := one_le_utf8Size c
              rw [List.nil_append, splitFrom, size_cons, size_nil]
              omega
  | cons c front ih =>
      cases offset with
      | zero => simp [splitFrom]
      | succ offset =>
          rw [List.cons_append, size_cons] at h
          have hfront := @ih (offset + 1 - c.utf8Size) (by omega)
          rw [List.cons_append, splitFrom, size_cons, size_cons]
          omega

/-- A beginning fits into a number of bytes exactly if it goes no further than all that fits. -/
theorem size_le_iff_within {count : ℕ} {front back : Text} :
    size front ≤ count ↔ size front ≤ size (within count (front ++ back)) := by
  induction front generalizing count with
  | nil => simp
  | cons c front ih =>
      rw [List.cons_append, within]
      split
      next hc =>
        have hfront := @ih (count - c.utf8Size)
        rw [size_cons, size_cons]
        omega
      next hc =>
        have hpos := one_le_utf8Size c
        rw [size_cons, size_nil]
        omega

theorem exists_eq_within_append (count : ℕ) (t : Text) : ∃ rest, t = within count t ++ rest := by
  induction t generalizing count with
  | nil => exact ⟨[], rfl⟩
  | cons c t ih =>
      rw [within]
      split
      · obtain ⟨rest, hrest⟩ := ih (count - c.utf8Size)
        exact ⟨rest, by rw [List.cons_append, ← hrest]⟩
      · exact ⟨c :: t, rfl⟩

/-! ## Starts and parts -/

theorem startsWith_iff {start t : Text} : startsWith start t = true ↔ start <+: t := by
  rw [startsWith, Option.isSome_iff_exists]
  constructor
  · rintro ⟨rest, h⟩
    exact ⟨rest, (eq_append_of_afterStart? h).symm⟩
  · rintro ⟨rest, rfl⟩
    exact ⟨rest, afterStart?_append start rest⟩

theorem dropStart_append (start t : Text) : dropStart start (start ++ t) = t := by
  rw [dropStart, afterStart?_append, Option.getD_some]

theorem dropStart_of_not_isPrefix {start t : Text} (h : ¬ start <+: t) :
    dropStart start t = t := by
  rw [← startsWith_iff, startsWith, Option.not_isSome_iff_eq_none] at h
  rw [dropStart, h, Option.getD_none]

theorem dropStart_suffix (start t : Text) : dropStart start t <:+ t := by
  rw [dropStart]
  cases hstart : afterStart? start t with
  | none => exact List.suffix_rfl
  | some rest => exact ⟨start, (eq_append_of_afterStart? hstart).symm⟩

theorem occursIn_iff {part t : Text} : occursIn part t = true ↔ part <:+: t := by
  induction t with
  | nil => simp [occursIn]
  | cons c rest ih =>
      rw [occursIn, Bool.or_eq_true, startsWith_iff, ih, List.infix_cons_iff]

/-- What does not occur in the first of two lists stands in the second. -/
theorem exists_append_of_not_mem {α : Type} {s t front back : List α} {a : α} (ha : a ∉ s)
    (h : s ++ t = front ++ a :: back) :
    ∃ behind, front = s ++ behind ∧ t = behind ++ a :: back := by
  rcases List.append_eq_append_iff.mp h with hbehind | ⟨rest, rfl, hrest⟩
  · exact hbehind
  · cases rest with
    | nil => exact ⟨[], by simp, hrest.symm⟩
    | cons b rest =>
        obtain ⟨rfl, -⟩ := List.cons.inj hrest
        exact absurd (by simp) ha

theorem mem_intercalate {separator : Text} {l : List Text} {c : Char}
    (h : c ∈ separator.intercalate l) : c ∈ separator ∨ ∃ t ∈ l, c ∈ t := by
  induction l with
  | nil => cases h
  | cons t l ih =>
      cases l with
      | nil => exact .inr ⟨t, List.mem_cons_self, by rwa [List.intercalate_singleton] at h⟩
      | cons u l =>
          rw [List.intercalate_cons_cons, List.mem_append, List.mem_append] at h
          rcases h with (h | h) | h
          · exact .inr ⟨t, List.mem_cons_self, h⟩
          · exact .inl h
          · exact (ih h).imp id fun ⟨v, hv, hc⟩ => ⟨v, List.mem_cons_of_mem t hv, hc⟩

/-! ## Runs -/

theorem takeWhile_append_of_head? {α : Type} {test : α → Bool} {run rest : List α}
    (hrun : ∀ c ∈ run, test c = true) (hrest : ∀ c ∈ rest.head?, test c = false) :
    (run ++ rest).takeWhile test = run := by
  rw [List.takeWhile_append_of_pos hrun]
  cases rest with
  | nil => simp
  | cons c rest => simp [hrest c rfl]

theorem dropWhile_append_of_head? {test : Char → Bool} {run rest : Text}
    (hrun : ∀ c ∈ run, test c = true) (hrest : ∀ c ∈ rest.head?, test c = false) :
    (run ++ rest).dropWhile test = rest := by
  rw [List.dropWhile_append_of_pos hrun]
  cases rest with
  | nil => rfl
  | cons c rest => simp [hrest c rfl]

theorem eq_false_of_mem_head?_dropWhile {test : Char → Bool} {t : Text} {c : Char}
    (h : c ∈ (t.dropWhile test).head?) : test c = false := by
  have hnot := List.head?_dropWhile_not test t
  rw [Option.mem_def.mp h] at hnot
  simpa using hnot

theorem eq_false_of_any_eq_false {c? : Option Char} {test : Char → Bool}
    (h : c?.any test = false) : ∀ c ∈ c?, test c = false := by
  rintro c rfl
  exact h

theorem exists_run_append (test : Char → Bool) (t : Text) :
    ∃ run rest, t = run ++ rest ∧ (∀ c ∈ run, test c = true) ∧
      ∀ c ∈ rest.head?, test c = false :=
  ⟨_, _, List.takeWhile_append_dropWhile.symm, fun _ => List.mem_takeWhile_imp,
    fun _ => eq_false_of_mem_head?_dropWhile⟩

theorem getLast?_cons_or (c : Char) (t : Text) (before? : Option Char) :
    (c :: t).getLast?.or before? = t.getLast?.or (some c) := by
  cases h : t.getLast? <;> simp [List.getLast?_cons, h]

theorem getLast?_append_or {part : Text} (hne : part ≠ []) (t : Text) (before? : Option Char) :
    (part ++ t).getLast?.or before? = t.getLast?.or part.getLast? := by
  rw [List.getLast?_append, List.getLast?_eq_some_getLast hne]
  cases t.getLast? <;> rfl

theorem splitTrailing_of_getLast? {test : Char → Bool} {front run : Text}
    (hfront : ∀ c ∈ front.getLast?, test c = false) (hrun : ∀ c ∈ run, test c = true) :
    splitTrailing test (front ++ run) = (front, run) := by
  have hrun' : ∀ c ∈ run.reverse, test c = true := fun c hc => hrun c (List.mem_reverse.mp hc)
  have hhead : ∀ c ∈ front.reverse.head?, test c = false := by
    rw [List.head?_reverse]
    exact hfront
  rw [splitTrailing, List.reverse_append, takeWhile_append_of_head? hrun' hhead,
    dropWhile_append_of_head? hrun' hhead, List.reverse_reverse, List.reverse_reverse]

theorem splitTrailing_append {test : Char → Bool} {front run : Text} {c : Char}
    (hc : test c = false) (hrun : ∀ d ∈ run, test d = true) :
    splitTrailing test (front ++ c :: run) = (front ++ [c], run) := by
  rw [← List.singleton_append, ← List.append_assoc]
  exact splitTrailing_of_getLast? (by simpa using hc) hrun

theorem splitTrailing_fst_append_snd (test : Char → Bool) (t : Text) :
    (splitTrailing test t).1 ++ (splitTrailing test t).2 = t := by
  rw [splitTrailing, ← List.reverse_append, List.takeWhile_append_dropWhile,
    List.reverse_reverse]

theorem mem_snd_splitTrailing {test : Char → Bool} {t : Text} {c : Char}
    (h : c ∈ (splitTrailing test t).2) : test c = true :=
  List.mem_takeWhile_imp (List.mem_reverse.mp h)

theorem eq_false_of_mem_getLast?_splitTrailing {test : Char → Bool} {t : Text} {c : Char}
    (h : c ∈ (splitTrailing test t).1.getLast?) : test c = false := by
  rw [splitTrailing, List.getLast?_reverse] at h
  exact eq_false_of_mem_head?_dropWhile h

theorem exists_append_run (test : Char → Bool) (t : Text) :
    ∃ front run, t = front ++ run ∧ (∀ c ∈ run, test c = true) ∧
      ∀ c ∈ front.getLast?, test c = false :=
  ⟨_, _, (splitTrailing_fst_append_snd test t).symm, fun _ => mem_snd_splitTrailing,
    fun _ => eq_false_of_mem_getLast?_splitTrailing⟩

/-! ## Classes -/

/-- What holds of the first 128 characters holds of every ASCII character. -/
theorem forall_ascii (test : Char → Prop) (h : ∀ n < 128, test (Char.ofNat n)) {c : Char}
    (hc : c.toNat < 128) : test c := by
  have htest := h c.toNat hc
  rwa [Char.ofNat_toNat] at htest

theorem utf8Size_of_toNat_lt {c : Char} (h : c.toNat < 128) : c.utf8Size = 1 :=
  Char.utf8Size_eq_one_iff.mpr (UInt32.le_iff_toNat_le.mpr (Nat.le_of_lt_succ h))

theorem toNat_of_isNameChar {c : Char} (h : isNameChar c = true) :
    (48 ≤ c.toNat ∧ c.toNat ≤ 57) ∨ (65 ≤ c.toNat ∧ c.toNat ≤ 90) ∨ c.toNat = 95 ∨
      (97 ≤ c.toNat ∧ c.toNat ≤ 122) := by
  delta isNameChar Char.isAlphanum Char.isAlpha Char.isUpper Char.isLower Char.isDigit at h
  simp only [Bool.or_eq_true, Bool.and_eq_true, decide_eq_true_eq, beq_iff_eq,
    ge_iff_le, UInt32.le_iff_toNat_le] at h
  have hval : c.toNat = c.val.toNat := rfl
  rcases h with ((⟨h1, h2⟩ | ⟨h1, h2⟩) | ⟨h1, h2⟩) | rfl
  · simp at h1 h2; omega
  · simp at h1 h2; omega
  · simp at h1 h2; omega
  · decide

theorem utf8Size_of_isNameChar {c : Char} (h : isNameChar c = true) : c.utf8Size = 1 := by
  have hname := toNat_of_isNameChar h
  exact utf8Size_of_toNat_lt (by omega)

theorem isBlank_of_isNameChar {c : Char} (h : isNameChar c = true) : isBlank c = false := by
  have hc := toNat_of_isNameChar h
  simp only [isBlank, Bool.or_eq_false_iff, Bool.and_eq_false_iff, decide_eq_false_iff_not,
    beq_eq_false_iff_ne]
  omega

theorem isNameChar_of_isBlank {c : Char} (h : isBlank c = true) : isNameChar c = false := by
  refine Bool.eq_false_iff.mpr fun hname => ?_
  rw [isBlank_of_isNameChar hname] at h
  cases h

theorem ne_of_isNameChar {c d : Char} (hc : isNameChar c = true) (hd : isNameChar d = false) :
    c ≠ d := by
  rintro rfl
  rw [hc] at hd
  exact Bool.false_ne_true hd.symm

theorem forall_isBlank_nil : ∀ c ∈ ([] : Text), isBlank c = true := List.forall_mem_nil _

theorem forall_isBlank_singleton : ∀ c ∈ [' '], isBlank c = true :=
  List.forall_mem_singleton.mpr rfl

/-! ## Trimming and words -/

theorem trim_eq_trimEnd {t : Text} (h : ∀ c ∈ t.head?, isBlank c = false) :
    trim t = trimEnd t :=
  congrArg trimEnd (dropWhile_append_of_head? (List.forall_mem_nil _) h)

theorem trimEnd_append {t gap : Text} (h : ∀ c ∈ t.getLast?, isBlank c = false)
    (hgap : ∀ c ∈ gap, isBlank c = true) : trimEnd (t ++ gap) = t := by
  rw [trimEnd, splitTrailing_of_getLast? h hgap]

theorem trim_eq_self {t : Text} (hhead : ∀ c ∈ t.head?, isBlank c = false)
    (hlast : ∀ c ∈ t.getLast?, isBlank c = false) : trim t = t := by
  have hend := trimEnd_append hlast (List.forall_mem_nil _)
  rw [List.append_nil] at hend
  rw [trim_eq_trimEnd hhead, hend]

theorem trim_append_of_forall_isBlank {gap t : Text} (hgap : ∀ c ∈ gap, isBlank c = true) :
    trim (gap ++ t) = trim t := by
  rw [trim, trim, trimStart, trimStart, List.dropWhile_append_of_pos hgap]

theorem exists_trim_append (t : Text) :
    ∃ lead trail, t = lead ++ (trim t ++ trail) ∧ (∀ c ∈ lead, isBlank c = true) ∧
      ∀ c ∈ trail, isBlank c = true := by
  refine ⟨t.takeWhile isBlank, (splitTrailing isBlank (trimStart t)).2, ?_,
    fun c => List.mem_takeWhile_imp, fun c => mem_snd_splitTrailing⟩
  rw [trim, trimEnd, splitTrailing_fst_append_snd, trimStart, List.takeWhile_append_dropWhile]

theorem isBlank_of_mem_getLast?_trim {t : Text} :
    ∀ c ∈ (trim t).getLast?, isBlank c = false :=
  fun _ => eq_false_of_mem_getLast?_splitTrailing

theorem isBlank_of_mem_head?_trim {t : Text} :
    ∀ c ∈ (trim t).head?, isBlank c = false := by
  intro c hc
  have hne : trim t ≠ [] := by
    intro hnil
    rw [hnil] at hc
    cases hc
  have hparts : trim t ++ (splitTrailing isBlank (trimStart t)).2 = trimStart t :=
    splitTrailing_fst_append_snd isBlank (trimStart t)
  have hhead : c ∈ (trimStart t).head? := by
    rw [← hparts, List.head?_append_of_ne_nil _ hne]
    exact hc
  exact eq_false_of_mem_head?_dropWhile hhead

theorem trimEnd_append_of_forall_isBlank {t gap : Text} (hgap : ∀ c ∈ gap, isBlank c = true) :
    trimEnd (t ++ gap) = trimEnd t := by
  obtain ⟨front, run, rfl, hrun, hfront⟩ := exists_append_run isBlank t
  rw [List.append_assoc, trimEnd_append hfront (List.forall_mem_append.mpr ⟨hrun, hgap⟩),
    trimEnd_append hfront hrun]

theorem trim_append_right_of_forall_isBlank {t gap : Text} (hgap : ∀ c ∈ gap, isBlank c = true) :
    trim (t ++ gap) = trim t := by
  obtain ⟨lead, rest, rfl, hlead, hrest⟩ := exists_run_append isBlank t
  rw [List.append_assoc, trim_append_of_forall_isBlank hlead, trim_append_of_forall_isBlank hlead]
  by_cases hne : rest = []
  · rw [hne, List.nil_append, ← List.append_nil gap, trim_append_of_forall_isBlank hgap]
  · have hhead : ∀ c ∈ (rest ++ gap).head?, isBlank c = false := by
      rwa [List.head?_append_of_ne_nil _ hne]
    rw [trim_eq_trimEnd hhead, trim_eq_trimEnd hrest, trimEnd_append_of_forall_isBlank hgap]

theorem pieces_append_cons {isSeparator : Char → Bool} {c : Char} (hc : isSeparator c = true)
    (s t : Text) :
    pieces isSeparator (s ++ c :: t) = pieces isSeparator s ++ pieces isSeparator t := by
  induction s with
  | nil => simp [pieces, hc]
  | cons d s ih =>
      rw [List.cons_append, pieces, pieces]
      split
      · rw [ih, List.cons_append]
      · rw [ih]
        obtain ⟨first, others, hp⟩ :=
          List.exists_cons_of_ne_nil (pieces_ne_nil isSeparator s)
        simp [hp]

theorem words_append_cons {c : Char} (hc : isBlank c = true) (s t : Text) :
    words (s ++ c :: t) = words s ++ words t := by
  rw [words, pieces_append_cons hc, List.filter_append]
  rfl

theorem words_append_blank {c : Char} (hc : isBlank c = true) (t : Text) :
    words (t ++ [c]) = words t := by
  rw [words_append_cons hc]
  exact List.append_nil _

theorem words_append_of_forall_isBlank {gap : Text} (hgap : ∀ c ∈ gap, isBlank c = true)
    (t : Text) : words (gap ++ t) = words t := by
  induction gap with
  | nil => rfl
  | cons c gap ih =>
      rw [List.cons_append, ← List.nil_append (c :: (gap ++ t)),
        words_append_cons (hgap c List.mem_cons_self),
        ih fun d hd => hgap d (List.mem_cons_of_mem c hd)]
      rfl

theorem words_append_right_of_forall_isBlank {gap : Text} (h : ∀ c ∈ gap, isBlank c = true) :
    words (t ++ gap) = words t := by
  induction gap using List.reverseRecOn with
  | nil => rw [List.append_nil]
  | append_singleton gap c ih =>
      rw [List.forall_mem_append, List.forall_mem_singleton] at h
      rw [← List.append_assoc, words_append_blank h.2, ih h.1]

theorem pieces_eq_singleton {isSeparator : Char → Bool} {t : Text}
    (h : ∀ c ∈ t, isSeparator c = false) : pieces isSeparator t = [t] := by
  induction t with
  | nil => rfl
  | cons c t ih =>
      rw [pieces, h c List.mem_cons_self, ih fun d hd => h d (List.mem_cons_of_mem c hd)]
      rfl

theorem words_eq_singleton {word : Text} (hne : word ≠ [])
    (hword : ∀ c ∈ word, isBlank c = false) : words word = [word] := by
  simp [words, pieces_eq_singleton hword, hne]

/-- The last blank is the one before the last word. -/
theorem splitAtLastBlank?_append {front last : Text} {c : Char} (hc : isBlank c = true)
    (hlast : ∀ d ∈ last, isBlank d = false) :
    splitAtLastBlank? (front ++ c :: last) = some (front, last) := by
  have hsplit : splitTrailing (!isBlank ·) (front ++ c :: last) = (front ++ [c], last) :=
    splitTrailing_append (by simp [hc]) (by simpa using hlast)
  simp [splitAtLastBlank?, hsplit]

end HeaderBindings.Text
