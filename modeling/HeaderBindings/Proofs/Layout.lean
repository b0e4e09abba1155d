import HeaderBindings.Proofs.Text
import Mathlib.Data.List.Forall2

/-! # Layout

Two texts are laid out differently if they are the same but for the lengths and the characters of
their runs of ASCII blanks. What reads a text by a class of characters that holds all ASCII blanks
or none cuts such texts into parts that again differ in their layout only. -/

namespace HeaderBindings.Text

open List

/-- The ASCII characters among the blanks. -/
def isAsciiBlank (c : Char) : Bool := isBlank c && c.toNat < 128

/-- A place that is laid out: not empty, and nothing but ASCII blanks. -/
structure IsSpacing (gap : Text) : Prop where
  ne_nil : gap ≠ []
  isAsciiBlank : ∀ c ∈ gap, Text.isAsciiBlank c = true

/-- The second text is the first with runs of ASCII blanks exchanged for others. -/
inductive Relaid : Text → Text → Prop
  | nil : Relaid [] []
  | char (c : Char) {t t' : Text} (h : Relaid t t') : Relaid (c :: t) (c :: t')
  | gap {gap gap' t t' : Text} (hgap : IsSpacing gap) (hgap' : IsSpacing gap') (h : Relaid t t') :
      Relaid (gap ++ t) (gap' ++ t')

/-- A function that does not tell one ASCII blank from another. -/
def IgnoresLayout {α : Type} (f : Char → α) : Prop :=
  ∀ c d, isAsciiBlank c = true → isAsciiBlank d = true → f c = f d

variable {s s' t t' : Text} {c : Char} {test : Char → Bool}

/-! ## Classes -/

theorem isBlank_of_isAsciiBlank (h : isAsciiBlank c = true) : isBlank c = true :=
  (Bool.and_eq_true_iff.mp h).1

theorem utf8Size_of_isAsciiBlank (h : isAsciiBlank c = true) : c.utf8Size = 1 := by
  have hsmall : c.toNat < 128 := by simpa using (Bool.and_eq_true_iff.mp h).2
  exact utf8Size_of_toNat_lt hsmall

theorem isAsciiBlank_of_isBlank (h : isBlank c = false) : isAsciiBlank c = false := by
  rw [isAsciiBlank, h, Bool.false_and]

theorem isAsciiBlank_of_isNameChar (h : isNameChar c = true) : isAsciiBlank c = false :=
  isAsciiBlank_of_isBlank (isBlank_of_isNameChar h)

theorem isNameChar_of_isAsciiBlank (h : isAsciiBlank c = true) : isNameChar c = false := by
  refine Bool.eq_false_iff.mpr fun hname => ?_
  rw [isAsciiBlank_of_isNameChar hname] at h
  cases h

theorem ignoresLayout_of_forall {α : Type} {f : Char → α} {a : α}
    (h : ∀ c, isAsciiBlank c = true → f c = a) : IgnoresLayout f := by
  intro c d hc hd
  rw [h c hc, h d hd]

theorem ignoresLayout_isBlank : IgnoresLayout isBlank :=
  ignoresLayout_of_forall fun _ => isBlank_of_isAsciiBlank

theorem ignoresLayout_isNameChar : IgnoresLayout isNameChar :=
  ignoresLayout_of_forall fun _ => isNameChar_of_isAsciiBlank

theorem IgnoresLayout.comp {α β : Type} {f : Char → α} (h : IgnoresLayout f) (g : α → β) :
    IgnoresLayout (g ∘ f) :=
  fun c d hc hd => congrArg g (h c d hc hd)

/-! ## Gaps -/

theorem IsSpacing.reverse {gap : Text} (h : IsSpacing gap) : IsSpacing gap.reverse where
  ne_nil := List.reverse_ne_nil_iff.mpr h.ne_nil
  isAsciiBlank := fun c hc => h.isAsciiBlank c (List.mem_reverse.mp hc)

theorem IsSpacing.isBlank {gap : Text} (h : IsSpacing gap) : ∀ c ∈ gap, Text.isBlank c = true :=
  fun c hc => isBlank_of_isAsciiBlank (h.isAsciiBlank c hc)

/-! ## The relation -/

namespace Relaid

theorem refl (t : Text) : Relaid t t := by
  induction t with
  | nil => exact .nil
  | cons c t ih => exact .char c ih

theorem of_isSpacing {gap gap' : Text} (hgap : IsSpacing gap) (hgap' : IsSpacing gap') :
    Relaid gap gap' := by
  simpa using Relaid.gap hgap hgap' .nil

theorem symm (h : Relaid t t') : Relaid t' t := by
  induction h with
  | nil => exact .nil
  | char c _ ih => exact .char c ih
  | gap hgap hgap' _ ih => exact .gap hgap' hgap ih

theorem append (hs : Relaid s s') (ht : Relaid t t') : Relaid (s ++ t) (s' ++ t') := by
  induction hs with
  | nil => exact ht
  | char c _ ih => exact .char c ih
  | gap hgap hgap' _ ih =>
      rw [List.append_assoc, List.append_assoc]
      exact .gap hgap hgap' ih

theorem reverse (h : Relaid t t') : Relaid t.reverse t'.reverse := by
  induction h with
  | nil => exact .nil
  | char c _ ih =>
      rw [List.reverse_cons, List.reverse_cons]
      exact ih.append (refl [c])
  | gap hgap hgap' _ ih =>
      rw [List.reverse_append, List.reverse_append]
      exact ih.append (of_isSpacing hgap.reverse hgap'.reverse)

theorem eq_nil_iff (h : Relaid t t') : t = [] ↔ t' = [] := by
  cases h with
  | nil => rfl
  | char c h => simp
  | gap hgap hgap' h => simp [hgap.ne_nil, hgap'.ne_nil]

theorem isEmpty_eq (h : Relaid t t') : t.isEmpty = t'.isEmpty := by
  rw [Bool.eq_iff_iff, List.isEmpty_iff, List.isEmpty_iff]
  exact h.eq_nil_iff

theorem exists_of_cons (h : Relaid (c :: t) t') (hc : isAsciiBlank c = false) :
    ∃ rest, t' = c :: rest ∧ Relaid t rest := by
  generalize htext : c :: t = text at h
  cases h with
  | nil => cases htext
  | char d h =>
      cases htext
      exact ⟨_, rfl, h⟩
  | gap hgap hgap' h =>
      obtain ⟨d, gap, rfl⟩ := List.exists_cons_of_ne_nil hgap.ne_nil
      cases htext
      rw [hgap.isAsciiBlank c List.mem_cons_self] at hc
      cases hc

theorem exists_of_append {word : Text} (h : Relaid (word ++ t) t')
    (hword : ∀ c ∈ word, isAsciiBlank c = false) : ∃ rest, t' = word ++ rest ∧ Relaid t rest := by
  induction word generalizing t' with
  | nil => exact ⟨t', rfl, h⟩
  | cons c word ih =>
      obtain ⟨tail, rfl, htail⟩ := h.exists_of_cons (hword c List.mem_cons_self)
      obtain ⟨rest, rfl, hrest⟩ := ih htail fun d hd => hword d (List.mem_cons_of_mem c hd)
      exact ⟨rest, rfl, hrest⟩

theorem eq_of_forall (h : Relaid t t') (ht : ∀ c ∈ t, isAsciiBlank c = false) : t = t' := by
  rw [← List.append_nil t] at h
  obtain ⟨rest, rfl, hrest⟩ := h.exists_of_append ht
  rw [hrest.eq_nil_iff.mp rfl, List.append_nil]

theorem eq_iff {word : Text} (h : Relaid t t') (hword : ∀ c ∈ word, isAsciiBlank c = false) :
    t = word ↔ t' = word := by
  constructor
  · rintro rfl
    exact (h.eq_of_forall hword).symm
  · rintro rfl
    exact (h.symm.eq_of_forall hword).symm

/-! ## Parts -/

theorem map_head? {α : Type} {f : Char → α} (hf : IgnoresLayout f) (h : Relaid t t') :
    t.head?.map f = t'.head?.map f := by
  cases h with
  | nil => rfl
  | char c h => rfl
  | gap hgap hgap' h =>
      obtain ⟨c, gap, rfl⟩ := List.exists_cons_of_ne_nil hgap.ne_nil
      obtain ⟨d, gap', rfl⟩ := List.exists_cons_of_ne_nil hgap'.ne_nil
      exact congrArg some (hf c d (hgap.isAsciiBlank c List.mem_cons_self)
        (hgap'.isAsciiBlank d List.mem_cons_self))

theorem map_getLast? {α : Type} {f : Char → α} (hf : IgnoresLayout f) (h : Relaid t t') :
    t.getLast?.map f = t'.getLast?.map f := by
  rw [← List.head?_reverse, ← List.head?_reverse]
  exact h.reverse.map_head? hf

/-- A class of characters starts the two texts with runs of the same layout. -/
theorem span (htest : IgnoresLayout test) (h : Relaid t t') :
    Relaid (t.takeWhile test) (t'.takeWhile test) ∧
      Relaid (t.dropWhile test) (t'.dropWhile test) := by
  induction h with
  | nil => exact ⟨.nil, .nil⟩
  | char c h ih =>
      rw [List.takeWhile_cons, List.takeWhile_cons, List.dropWhile_cons, List.dropWhile_cons]
      by_cases hc : test c = true
      · simp only [hc, if_true]
        exact ⟨.char c ih.1, ih.2⟩
      · simp only [hc]
        exact ⟨.nil, .char c h⟩
  | @gap gap gap' t t' hgap hgap' h ih =>
      obtain ⟨c, hc⟩ := List.exists_mem_of_ne_nil gap hgap.ne_nil
      have hsame : ∀ d, isAsciiBlank d = true → test d = test c := fun d hd =>
        htest d c hd (hgap.isAsciiBlank c hc)
      by_cases htrue : test c = true
      · have hrun : ∀ d ∈ gap, test d = true := fun d hd =>
          (hsame d (hgap.isAsciiBlank d hd)).trans htrue
        have hrun' : ∀ d ∈ gap', test d = true := fun d hd =>
          (hsame d (hgap'.isAsciiBlank d hd)).trans htrue
        rw [List.takeWhile_append_of_pos hrun, List.takeWhile_append_of_pos hrun',
          List.dropWhile_append_of_pos hrun, List.dropWhile_append_of_pos hrun']
        exact ⟨.gap hgap hgap' ih.1, ih.2⟩
      · obtain ⟨d, gap, rfl⟩ := List.exists_cons_of_ne_nil hgap.ne_nil
        obtain ⟨d', gap', rfl⟩ := List.exists_cons_of_ne_nil hgap'.ne_nil
        have hd : ¬ test d = true := by
          rwa [hsame d (hgap.isAsciiBlank d List.mem_cons_self)]
        have hd' : ¬ test d' = true := by
          rwa [hsame d' (hgap'.isAsciiBlank d' List.mem_cons_self)]
        simp only [List.cons_append, List.takeWhile_cons, List.dropWhile_cons, hd, hd']
        exact ⟨.nil, .gap hgap hgap' h⟩

theorem exists_run_append (htest : IgnoresLayout test) (h : Relaid t t') :
    ∃ run rest run' rest', t = run ++ rest ∧ t' = run' ++ rest' ∧ Relaid run run' ∧
      Relaid rest rest' ∧ ((∀ c ∈ run, test c = true) ∧ ∀ c ∈ rest.head?, test c = false) ∧
        (∀ c ∈ run', test c = true) ∧ ∀ c ∈ rest'.head?, test c = false := by
  have hends : ∀ t : Text, (∀ c ∈ t.takeWhile test, test c = true) ∧
      ∀ c ∈ (t.dropWhile test).head?, test c = false :=
    fun t => ⟨fun _ => List.mem_takeWhile_imp, fun _ => eq_false_of_mem_head?_dropWhile⟩
  exact ⟨_, _, _, _, List.takeWhile_append_dropWhile.symm, List.takeWhile_append_dropWhile.symm,
    (h.span htest).1, (h.span htest).2, hends t, hends t'⟩

theorem head?_eq_some_iff (h : Relaid t t') (hc : isAsciiBlank c = false) :
    t.head? = some c ↔ t'.head? = some c := by
  have himp : ∀ {s s' : Text}, Relaid s s' → s.head? = some c → s'.head? = some c := by
    intro s s' hs hhead
    obtain ⟨rest, rfl⟩ := List.head?_eq_some_iff.mp hhead
    obtain ⟨rest', rfl, -⟩ := hs.exists_of_cons hc
    rfl
  exact ⟨himp h, himp h.symm⟩

theorem splitTrailing (htest : IgnoresLayout test) (h : Relaid t t') :
    Relaid (splitTrailing test t).1 (splitTrailing test t').1 ∧
      Relaid (splitTrailing test t).2 (splitTrailing test t').2 :=
  ⟨(h.reverse.span htest).2.reverse, (h.reverse.span htest).1.reverse⟩

theorem trimEnd (h : Relaid t t') : Relaid (trimEnd t) (trimEnd t') :=
  (h.splitTrailing ignoresLayout_isBlank).1

theorem trim (h : Relaid t t') : Relaid (trim t) (trim t') :=
  (h.span ignoresLayout_isBlank).2.trimEnd

end Relaid

/-! ## Runs of blanks -/

/-- A text with a single blank for each maximal run of ASCII blanks. -/
def squeeze : Text → Text
  | [] => []
  | c :: rest =>
    if !isAsciiBlank c then c :: squeeze rest
    else if rest.head?.any isAsciiBlank then squeeze rest
    else ' ' :: squeeze rest

theorem squeeze_cons (h : isAsciiBlank c = false) : squeeze (c :: t) = c :: squeeze t := by
  rw [squeeze, if_pos (by rw [h]; rfl)]

theorem squeeze_append {gap : Text} (hgap : IsSpacing gap) (t : Text) :
    squeeze (gap ++ t) = if t.head?.any isAsciiBlank then squeeze t else ' ' :: squeeze t := by
  obtain ⟨hne, hblank⟩ := hgap
  induction gap with
  | nil => exact absurd rfl hne
  | cons c gap ih =>
      obtain ⟨hc, hblank⟩ := List.forall_mem_cons.mp hblank
      rw [List.cons_append, squeeze, if_neg (by rw [hc]; simp)]
      cases gap with
      | nil => rfl
      | cons d gap =>
          have hd : (d :: gap ++ t).head?.any isAsciiBlank = true := hblank d List.mem_cons_self
          rw [if_pos hd]
          exact ih (List.cons_ne_nil d gap) hblank

theorem Relaid.squeeze_eq (h : Relaid t t') : squeeze t = squeeze t' := by
  have hhead : ∀ {t t' : Text}, Relaid t t' →
      t.head?.any isAsciiBlank = t'.head?.any isAsciiBlank := by
    intro t t' h
    have hignores : IgnoresLayout isAsciiBlank := ignoresLayout_of_forall fun _ => id
    have hmap := congrArg (·.any id) (h.map_head? hignores)
    simpa [Option.any_map] using hmap
  induction h with
  | nil => rfl
  | char c h ih =>
      by_cases hc : isAsciiBlank c = true
      · have hgap : IsSpacing [c] := ⟨List.cons_ne_nil c [], List.forall_mem_singleton.mpr hc⟩
        change squeeze ([c] ++ _) = squeeze ([c] ++ _)
        rw [squeeze_append hgap, squeeze_append hgap, hhead h, ih]
      · have hc := Bool.not_eq_true _ ▸ hc
        rw [squeeze_cons hc, squeeze_cons hc, ih]
  | gap hgap hgap' h ih => rw [squeeze_append hgap, squeeze_append hgap', hhead h, ih]

theorem cases_of_ne_nil (h : t ≠ []) :
    (∃ c rest, t = c :: rest ∧ isAsciiBlank c = false ∧ squeeze t = c :: squeeze rest) ∨
      ∃ gap rest, t = gap ++ rest ∧ IsSpacing gap ∧ squeeze t = ' ' :: squeeze rest := by
  obtain ⟨gap, rest, rfl, hgap, hrest⟩ := exists_run_append isAsciiBlank t
  by_cases hnil : gap = []
  · subst hnil
    obtain ⟨c, rest, rfl⟩ := List.exists_cons_of_ne_nil h
    exact .inl ⟨c, rest, rfl, hrest c rfl, squeeze_cons (hrest c rfl)⟩
  · have hhead : ¬ rest.head?.any isAsciiBlank = true := by
      cases hhead : rest.head? with
      | none => exact Bool.false_ne_true
      | some c => exact Bool.eq_false_iff.mp (hrest c hhead)
    refine .inr ⟨gap, rest, rfl, ⟨hnil, hgap⟩, ?_⟩
    rw [squeeze_append ⟨hnil, hgap⟩, if_neg hhead]

theorem squeeze_eq_nil_iff : squeeze t = [] ↔ t = [] := by
  constructor
  · intro h
    by_contra hne
    rcases cases_of_ne_nil hne with ⟨c, rest, -, -, hsqueeze⟩ | ⟨gap, rest, -, -, hsqueeze⟩
    · rw [hsqueeze] at h
      cases h
    · rw [hsqueeze] at h
      cases h
  · rintro rfl
    rfl

theorem relaid_of_squeeze_eq (h : squeeze t = squeeze t') : Relaid t t' := by
  have hblank : isAsciiBlank ' ' = true := by decide
  induction hlength : t.length using Nat.strong_induction_on generalizing t t' with
  | _ length ih =>
    by_cases hnil : t = []
    · have hnil' : t' = [] := by
        rw [← squeeze_eq_nil_iff, ← h, hnil]
        rfl
      rw [hnil, hnil']
      exact .nil
    have hnil' : t' ≠ [] := by
      intro hnil'
      apply hnil
      rw [← squeeze_eq_nil_iff, h, hnil']
      rfl
    rcases cases_of_ne_nil hnil with ⟨c, rest, rfl, hc, hsqueeze⟩ | ⟨gap, rest, rfl, hgap, hsqueeze⟩
    · rcases cases_of_ne_nil hnil' with
        ⟨c', rest', rfl, hc', hsqueeze'⟩ | ⟨gap', rest', rfl, hgap', hsqueeze'⟩
      · rw [hsqueeze, hsqueeze'] at h
        obtain ⟨rfl, hrest⟩ := List.cons.inj h
        exact .char c (ih rest.length (by simp [← hlength]) hrest rfl)
      · rw [hsqueeze, hsqueeze'] at h
        rw [(List.cons.inj h).1, hblank] at hc
        cases hc
    · rcases cases_of_ne_nil hnil' with
        ⟨c', rest', rfl, hc', hsqueeze'⟩ | ⟨gap', rest', rfl, hgap', hsqueeze'⟩
      · rw [hsqueeze, hsqueeze'] at h
        rw [← (List.cons.inj h).1, hblank] at hc'
        cases hc'
      · rw [hsqueeze, hsqueeze'] at h
        have hless : rest.length < length := by
          have hpos := List.length_pos_of_ne_nil hgap.ne_nil
          rw [← hlength, List.length_append]
          omega
        exact .gap hgap hgap' (ih rest.length hless (List.cons.inj h).2 rfl)

/-- Texts are laid out differently if they are the same once each maximal run is one blank. -/
theorem relaid_iff_squeeze_eq : Relaid t t' ↔ squeeze t = squeeze t' :=
  ⟨Relaid.squeeze_eq, relaid_of_squeeze_eq⟩

instance : Decidable (Relaid t t') := decidable_of_iff _ relaid_iff_squeeze_eq.symm

end HeaderBindings.Text
