import HeaderBindings.Proofs.Header.Nesting

/-! # Whole words

Both searches for a keyword are one search that goes from character to character. It heeds a
depth, which braces change in the one and nothing changes in the other; passing over a rejected
occurrence in one piece makes no difference, because a keyword of name characters has no whole
word inside of it. -/

namespace HeaderBindings.Header

open List Text

/-- The text up to the first whole word `keyword` at depth zero. -/
def upToWordAt? (keyword : Text) (depthAfter : Nat → Char → Nat) (depth : Nat)
    (before? : Option Char) : Text → Option Text
  | [] => none
  | c :: rest =>
    if depth = 0 ∧ (afterWord? keyword before? (c :: rest)).isSome then some []
    else (upToWordAt? keyword depthAfter (depthAfter depth c) (some c) rest).map (c :: ·)

/-- The depth of a search that heeds no nesting. -/
def sameDepth (depth : Nat) (_ : Char) : Nat := depth

variable {keyword : Text} {depthAfter : Nat → Char → Nat} {depth : Nat} {before? : Option Char}

/-! ## One occurrence -/

/-- What stands right before and right behind a word is no part of it. -/
structure IsWholeWord (before? behind? : Option Char) : Prop where
  before : separatesWords before? = true
  behind : separatesWords behind? = true

theorem afterWord?_eq_some_iff {t rest : Text} :
    afterWord? keyword before? t = some rest ↔
      t = keyword ++ rest ∧ separatesWords before? = true ∧ separatesWords rest.head? = true := by
  constructor
  · intro h
    rw [afterWord?] at h
    split at h
    next tail htail =>
      split at h
      next hwords =>
        cases h
        rw [Bool.and_eq_true] at hwords
        exact ⟨eq_append_of_afterStart? htail, hwords⟩
      next => exact absurd h (by simp)
    next => exact absurd h (by simp)
  · rintro ⟨rfl, hbefore, hrest⟩
    exact afterWord?_append hbefore hrest

/-! ## The first occurrence -/

theorem eq_append_of_upToWordAt? {t part : Text}
    (h : upToWordAt? keyword depthAfter depth before? t = some part) :
    ∃ rest, t = part ++ (keyword ++ rest) ∧
      separatesWords (part.getLast?.or before?) = true ∧ separatesWords rest.head? = true := by
  induction t generalizing depth before? part with
  | nil => exact absurd h (by simp [upToWordAt?])
  | cons c t ih =>
      rw [upToWordAt?] at h
      split at h
      next hfound =>
        cases h
        obtain ⟨rest, hrest⟩ := Option.isSome_iff_exists.mp hfound.2
        exact ⟨rest, afterWord?_eq_some_iff.mp hrest⟩
      next =>
        obtain ⟨inner, hinner, rfl⟩ := Option.map_eq_some_iff.mp h
        obtain ⟨rest, rfl, hbefore, hrest⟩ := ih hinner
        refine ⟨rest, rfl, ?_, hrest⟩
        rw [getLast?_cons_or]
        exact hbefore

theorem upToWordAt?_name {word : Text} (hword : ∀ c ∈ word, isNameChar c = true)
    (hbefore : separatesWords before? = false) (rest : Text) :
    upToWordAt? keyword sameDepth depth before? (word ++ rest) =
      (upToWordAt? keyword sameDepth depth (word.getLast?.or before?) rest).map (word ++ ·) := by
  induction word generalizing before? with
  | nil => simp
  | cons c word ih =>
      have hc : separatesWords (some c) = false := by
        simp [separatesWords, hword c (by simp)]
      have hnone : ¬ (depth = 0 ∧ (afterWord? keyword before? (c :: (word ++ rest))).isSome) := by
        rintro ⟨-, hfound⟩
        obtain ⟨tail, htail⟩ := Option.isSome_iff_exists.mp hfound
        rw [(afterWord?_eq_some_iff.mp htail).2.1] at hbefore
        exact Bool.false_ne_true hbefore.symm
      rw [List.cons_append, upToWordAt?, if_neg hnone, sameDepth,
        ih (fun d hd => hword d (by simp [hd])) hc, getLast?_cons_or, Option.map_map]
      rfl

theorem upToWordAt?_rejected (hne : keyword ≠ [])
    (hkeyword : ∀ c ∈ keyword, isNameChar c = true) {rest : Text}
    (h : afterWord? keyword before? (keyword ++ rest) = none) :
    upToWordAt? keyword sameDepth depth before? (keyword ++ rest) =
      (upToWordAt? keyword sameDepth depth keyword.getLast? rest).map (keyword ++ ·) := by
  obtain ⟨k, word, rfl⟩ := List.exists_cons_of_ne_nil hne
  have hk : separatesWords (some k) = false := by simp [separatesWords, hkeyword k (by simp)]
  have hlast : (k :: word).getLast? = word.getLast?.or (some k) := by
    rw [← getLast?_cons_or k word none, Option.or_none]
  rw [List.cons_append] at h
  rw [List.cons_append, upToWordAt?, h, if_neg (by simp), sameDepth,
    upToWordAt?_name (fun d hd => hkeyword d (by simp [hd])) hk, hlast, Option.map_map]
  rfl

theorem separatesWords_some {c : Char} (h : isNameChar c = false) :
    separatesWords (some c) = true := by
  simp [separatesWords, h]

theorem separatesWords_or {before? other? : Option Char} (h : separatesWords before? = true)
    (hother : separatesWords other? = true) : separatesWords (before?.or other?) = true := by
  cases before? with
  | none => exact hother
  | some c => exact h

/-- What ends in no part of a word still does so behind other text. -/
theorem separatesWords_getLast?_append {s t : Text} (hs : separatesWords s.getLast? = true)
    (ht : separatesWords t.getLast? = true) : separatesWords (s ++ t).getLast? = true := by
  rw [List.getLast?_append]
  exact separatesWords_or ht hs

theorem separatesWords_getLast?_of_append {s t : Text}
    (h : separatesWords (s ++ t).getLast? = true) : separatesWords t.getLast? = true := by
  by_cases ht : t = []
  · rw [ht]
    rfl
  · rw [List.getLast?_append_of_ne_nil _ ht] at h
    exact h

/-! ## Texts with and without the word -/

/-- The keyword stands in the text as a whole word. -/
def HoldsWord (keyword : Text) (before? : Option Char) (t : Text) : Prop :=
  ∃ front back, t = front ++ (keyword ++ back) ∧
    separatesWords (front.getLast?.or before?) = true ∧ separatesWords back.head? = true

variable {t : Text}

theorem HoldsWord.cons {c : Char} (h : HoldsWord keyword (some c) t) :
    HoldsWord keyword before? (c :: t) := by
  obtain ⟨front, back, rfl, hfront, hback⟩ := h
  refine ⟨c :: front, back, rfl, ?_, hback⟩
  rw [getLast?_cons_or]
  exact hfront

/-- What stands before a text can only keep a word from starting there. -/
theorem HoldsWord.of_before (h : HoldsWord keyword before? t) : HoldsWord keyword none t := by
  obtain ⟨front, back, rfl, hfront, hback⟩ := h
  refine ⟨front, back, rfl, ?_, hback⟩
  cases hlast : front.getLast? with
  | none => rfl
  | some c =>
      rw [hlast] at hfront
      exact hfront

theorem upToWordAt?_append (hne : keyword ≠ []) {rest : Text}
    (hbefore : separatesWords before? = true) (hrest : separatesWords rest.head? = true) :
    upToWordAt? keyword depthAfter 0 before? (keyword ++ rest) = some [] := by
  obtain ⟨k, word, rfl⟩ := List.exists_cons_of_ne_nil hne
  have hword : afterWord? (k :: word) before? (k :: word ++ rest) = some rest :=
    afterWord?_append hbefore hrest
  rw [List.cons_append] at hword
  rw [List.cons_append, upToWordAt?, if_pos ⟨rfl, by rw [hword]; rfl⟩]

/-- The search finds the word exactly when the text holds it. -/
theorem isSome_upToWordAt?_iff (hne : keyword ≠ []) :
    (upToWordAt? keyword sameDepth 0 before? t).isSome = true ↔ HoldsWord keyword before? t := by
  constructor
  · intro h
    obtain ⟨part, hpart⟩ := Option.isSome_iff_exists.mp h
    obtain ⟨rest, htext, hbefore, hrest⟩ := eq_append_of_upToWordAt? hpart
    exact ⟨part, rest, htext, hbefore, hrest⟩
  · rintro ⟨front, back, rfl, hfront, hback⟩
    induction front generalizing before? with
    | nil =>
        have hword : upToWordAt? keyword sameDepth 0 before? (keyword ++ back) = some [] :=
          upToWordAt?_append hne hfront hback
        rw [List.nil_append, hword]
        rfl
    | cons c front ih =>
        rw [getLast?_cons_or] at hfront
        rw [List.cons_append, upToWordAt?]
        split
        · rfl
        · rw [Option.isSome_map]
          exact ih hfront

theorem separatesWords_getLast?_or (hne : t ≠ []) (h : ∀ c ∈ t, isNameChar c = true) :
    separatesWords (t.getLast?.or before?) = false := by
  rw [List.getLast?_eq_some_getLast hne, Option.some_or]
  simp [separatesWords, h _ (List.getLast_mem hne)]

/-- A text that does not hold the keyword, and does not end in a part of a word, does not start
with it either. -/
theorem afterWord?_eq_none (hkeyword : ∀ c ∈ keyword, isNameChar c = true)
    (h : ¬ HoldsWord keyword before? t) (hne : t ≠ [])
    (hend : separatesWords (t.getLast?.or before?) = true) (rest : Text) :
    afterWord? keyword before? (t ++ (keyword ++ rest)) = none := by
  cases hfound : afterWord? keyword before? (t ++ (keyword ++ rest)) with
  | none => rfl
  | some tail =>
      exfalso
      obtain ⟨htext, hbefore, htail⟩ := afterWord?_eq_some_iff.mp hfound
      have hword : ¬ ∀ c ∈ t, isNameChar c = true := by
        intro hname
        rw [separatesWords_getLast?_or hne hname] at hend
        cases hend
      rcases List.append_eq_append_iff.mp htext with ⟨part, rfl, -⟩ | ⟨part, rfl, rfl⟩
      · exact hword fun c hc => hkeyword c (List.mem_append_left _ hc)
      · by_cases hnil : part = []
        · subst hnil
          rw [List.append_nil] at hword
          exact hword hkeyword
        · rw [List.head?_append_of_ne_nil _ hnil] at htail
          exact h ⟨[], part, rfl, hbefore, htail⟩

/-- The first occurrence of the keyword stands behind text that does not hold it, that does not
end in a part of a word, and that does not change the depth. -/
theorem upToWordAt?_eq_some (hne : keyword ≠ []) (hkeyword : ∀ c ∈ keyword, isNameChar c = true)
    (hdepth : ∀ c ∈ t, depthAfter 0 c = 0) (h : ¬ HoldsWord keyword before? t)
    (hend : separatesWords (t.getLast?.or before?) = true) {rest : Text}
    (hrest : separatesWords rest.head? = true) :
    upToWordAt? keyword depthAfter 0 before? (t ++ (keyword ++ rest)) = some t := by
  induction t generalizing before? with
  | nil =>
      exact upToWordAt?_append hne hend hrest
  | cons c t ih =>
      obtain ⟨hc, hdepth⟩ := List.forall_mem_cons.mp hdepth
      have hnone := afterWord?_eq_none hkeyword h (List.cons_ne_nil c t) hend rest
      rw [List.cons_append] at hnone
      rw [getLast?_cons_or] at hend
      rw [List.cons_append, upToWordAt?, hnone, if_neg (by simp), hc,
        ih hdepth (fun hword => h hword.cons) hend]
      rfl

theorem not_holdsWord_of_forall (hne : keyword ≠ [])
    (hkeyword : ∀ c ∈ keyword, isNameChar c = true) (ht : ∀ c ∈ t, isNameChar c = false) :
    ¬ HoldsWord keyword before? t := by
  rintro ⟨front, back, rfl, -, -⟩
  obtain ⟨k, word, rfl⟩ := List.exists_cons_of_ne_nil hne
  have hk := hkeyword k List.mem_cons_self
  rw [ht k (by simp)] at hk
  cases hk

theorem upToWordAt?_gap (hne : keyword ≠ []) (hkeyword : ∀ c ∈ keyword, isNameChar c = true)
    {gap rest : Text} (hgap : IsGap gap) (hbefore : separatesWords (gap.getLast?.or before?) = true)
    (hrest : separatesWords rest.head? = true) :
    upToWordAt? keyword braceDepthAfter 0 before? (gap ++ (keyword ++ rest)) = some gap := by
  have hdepth : ∀ c ∈ gap, braceDepthAfter 0 c = 0 := by
    intro c hc
    obtain ⟨-, hopen, hclose⟩ := hgap c hc
    exact braceDepthAfter_of_ne hopen hclose 0
  have hword : ¬ HoldsWord keyword before? gap :=
    not_holdsWord_of_forall hne hkeyword fun c hc => (hgap c hc).1
  exact upToWordAt?_eq_some hne hkeyword hdepth hword hbefore hrest

/-- A character that is no part of a name parts the words before it from those behind it. -/
theorem HoldsWord.of_append_cons {c : Char} (hne : keyword ≠ [])
    (hkeyword : ∀ c ∈ keyword, isNameChar c = true) (hc : isNameChar c = false) {s : Text}
    (h : HoldsWord keyword before? (s ++ c :: t)) :
    HoldsWord keyword before? s ∨ HoldsWord keyword (some c) t := by
  obtain ⟨front, back, htext, hfront, hback⟩ := h
  have hmem : c ∉ keyword := by
    intro hmem
    rw [hkeyword c hmem] at hc
    cases hc
  rcases List.append_eq_append_iff.mp htext with ⟨inner, rfl, hinner⟩ | ⟨inner, rfl, hinner⟩
  · cases inner with
    | nil =>
        obtain ⟨k, word, rfl⟩ := List.exists_cons_of_ne_nil hne
        obtain ⟨rfl, -⟩ := List.cons.inj hinner
        exact absurd List.mem_cons_self hmem
    | cons d inner =>
        obtain ⟨rfl, rfl⟩ := List.cons.inj hinner
        refine .inr ⟨inner, back, rfl, ?_, hback⟩
        rw [List.getLast?_append_of_ne_nil _ (List.cons_ne_nil c inner), getLast?_cons_or] at hfront
        exact hfront
  · left
    rcases List.append_eq_append_iff.mp hinner with ⟨later, rfl, rfl⟩ | ⟨later, rfl, hlater⟩
    · refine ⟨front, later, rfl, hfront, ?_⟩
      cases later with
      | nil => rfl
      | cons d later => exact hback
    · cases later with
      | nil => exact ⟨front, [], by simp, hfront, rfl⟩
      | cons d later =>
          obtain ⟨rfl, -⟩ := List.cons.inj hlater
          exact absurd (List.mem_append_right inner List.mem_cons_self) hmem

theorem not_holdsWord_append (hne : keyword ≠ []) (hkeyword : ∀ c ∈ keyword, isNameChar c = true)
    {gap : Text} (h : ¬ HoldsWord keyword before? t) (hgap : ∀ c ∈ gap, isNameChar c = false) :
    ¬ HoldsWord keyword before? (t ++ gap) := by
  cases gap with
  | nil =>
      rw [List.append_nil]
      exact h
  | cons c gap =>
      obtain ⟨hc, hgap⟩ := List.forall_mem_cons.mp hgap
      intro hword
      rcases hword.of_append_cons hne hkeyword hc with hword | hword
      · exact h hword
      · exact not_holdsWord_of_forall hne hkeyword hgap hword

theorem upToWordAt?_eq_none_iff (hne : keyword ≠ []) :
    upToWordAt? keyword sameDepth 0 before? t = none ↔ ¬ HoldsWord keyword before? t := by
  rw [← Option.not_isSome_iff_eq_none, isSome_upToWordAt?_iff hne]

/-! ## Both searches -/

/-- The search that passes over a rejected occurrence in one piece. -/
theorem upToWord?_eq_upToWordAt? (hne : keyword ≠ [])
    (hkeyword : ∀ c ∈ keyword, isNameChar c = true) (before? : Option Char) (t : Text) :
    upToWord? keyword before? t = upToWordAt? keyword sameDepth 0 before? t := by
  induction before?, t using upToWord?.induct keyword with
  | case1 before? hempty => simp [hne] at hempty
  | case2 before? hempty => rw [upToWord?, if_neg hempty, upToWordAt?]
  | case3 before? c rest hstart hword =>
      rw [upToWord?, if_pos hstart, if_pos hword, upToWordAt?, if_pos ⟨rfl, hword⟩]
  | case4 before? c rest hstart hword skipped ih =>
      obtain ⟨tail, htail⟩ := startsWith_iff.mp hstart
      have hlength : 1 ≤ keyword.length := List.length_pos_iff.mpr hne
      have hskipped : (c :: rest).take (max keyword.length 1) = keyword := by
        rw [Nat.max_eq_left hlength, ← htail, List.take_left]
      have hdrop : rest.drop (keyword.length - 1) = tail := by
        rw [← List.drop_succ_cons (a := c), Nat.sub_add_cancel hlength, ← htail, List.drop_left]
      simp only [skipped, hskipped, hdrop] at ih
      rw [upToWord?, if_pos hstart, if_neg hword]
      simp only [hskipped, hdrop]
      rw [← htail] at hword
      rw [ih, ← htail, upToWordAt?_rejected hne hkeyword (by simpa using hword)]
  | case5 before? c rest hstart ih =>
      have hnone : ¬ (0 = 0 ∧ (afterWord? keyword before? (c :: rest)).isSome) := by
        rintro ⟨-, hfound⟩
        obtain ⟨tail, htail⟩ := Option.isSome_iff_exists.mp hfound
        exact hstart (startsWith_iff.mpr ⟨tail, (afterWord?_eq_some_iff.mp htail).1.symm⟩)
      rw [upToWord?, if_neg hstart, ih, upToWordAt?, if_neg hnone, sameDepth]

/-- The search that heeds braces, which no keyword starts with. -/
theorem offsetOfKeyword?_eq_map_size (hkeyword : keyword.head?.any isNameChar = true)
    (depth : Nat) (before? : Option Char) (t : Text) :
    offsetOfKeyword? keyword depth before? t =
      (upToWordAt? keyword braceDepthAfter depth before? t).map size := by
  obtain ⟨k, word, rfl⟩ := List.exists_cons_of_ne_nil (ne_nil_of_head?_any hkeyword)
  induction t generalizing depth before? with
  | nil => rfl
  | cons c rest ih =>
      rw [offsetOfKeyword?, upToWordAt?, ih]
      by_cases hfound : (afterWord? (k :: word) before? (c :: rest)).isSome = true
      · have hc : k = c := by
          obtain ⟨tail, htail⟩ := Option.isSome_iff_exists.mp hfound
          exact (List.cons.inj (afterWord?_eq_some_iff.mp htail).1).1.symm
        subst hc
        have hopen : k ≠ '{' := ne_of_isNameChar hkeyword (by decide)
        have hclose : k ≠ '}' := ne_of_isNameChar hkeyword (by decide)
        by_cases hdepth : depth = 0
        · simp [hfound, hopen, hclose, hdepth]
        · simp [hdepth, Function.comp_def]
      · simp [hfound, Function.comp_def]

end HeaderBindings.Header
