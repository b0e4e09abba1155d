import HeaderBindings.Header.Nesting
import HeaderBindings.Proofs.Text

/-! # Searches over nested text

What the searches find in a text of known shape: a block ends at the first mark that balances
its opening mark, a target stands behind everything that neither opens nor closes, and a keyword
behind a gap that holds no name. -/

namespace HeaderBindings.Header

open List Text

/-! ## Balanced text -/

/-- No prefix closes more than it opens. -/
def NeverCloses (opening closing : Char) (t : Text) : Prop :=
  ∀ start ∈ t.inits, start.count closing ≤ start.count opening

instance (opening closing : Char) (t : Text) : Decidable (NeverCloses opening closing t) :=
  inferInstanceAs (Decidable (∀ start ∈ t.inits, start.count closing ≤ start.count opening))

/-- Every prefix opens at least as much as it closes, and the whole text closes all of it. -/
structure Balanced (opening closing : Char) (t : Text) : Prop where
  closed_le : ∀ start ∈ t.inits, start.count closing ≤ start.count opening
  count_eq : t.count closing = t.count opening

instance (opening closing : Char) (t : Text) : Decidable (Balanced opening closing t) :=
  decidable_of_iff
    ((∀ start ∈ t.inits, start.count closing ≤ start.count opening) ∧
      t.count closing = t.count opening)
    ⟨fun h => ⟨h.1, h.2⟩, fun h => ⟨h.closed_le, h.count_eq⟩⟩

variable {opening closing : Char}

theorem balanced_of_forall_ne {t : Text} (h : ∀ c ∈ t, c ≠ opening ∧ c ≠ closing) :
    Balanced opening closing t := by
  have hcount : ∀ start : Text, start ⊆ t →
      start.count opening = 0 ∧ start.count closing = 0 := by
    intro start hstart
    constructor
    · exact List.count_eq_zero.mpr fun hmem => (h _ (hstart hmem)).1 rfl
    · exact List.count_eq_zero.mpr fun hmem => (h _ (hstart hmem)).2 rfl
  refine ⟨?_, ?_⟩
  · intro start hstart
    obtain ⟨hopening, hclosing⟩ := hcount start ((List.mem_inits _ _).mp hstart).subset
    omega
  · obtain ⟨hopening, hclosing⟩ := hcount t (List.Subset.refl t)
    omega

theorem Balanced.neverCloses {t : Text} (h : Balanced opening closing t) :
    NeverCloses opening closing t := h.closed_le

theorem NeverCloses.append {s t : Text} (hs : NeverCloses opening closing s)
    (ht : NeverCloses opening closing t) : NeverCloses opening closing (s ++ t) := by
  intro start hstart
  have hstart := (List.mem_inits _ _).mp hstart
  rcases List.prefix_or_prefix_of_prefix hstart (List.prefix_append s t) with h | ⟨rest, rfl⟩
  · exact hs start ((List.mem_inits _ _).mpr h)
  · have hrest := ht rest ((List.mem_inits _ _).mpr ((List.prefix_append_right_inj s).mp hstart))
    have hcount := hs s ((List.mem_inits _ _).mpr List.prefix_rfl)
    simp only [List.count_append]
    omega

theorem Balanced.append {s t : Text} (hs : Balanced opening closing s)
    (ht : Balanced opening closing t) : Balanced opening closing (s ++ t) := by
  refine ⟨NeverCloses.append hs.closed_le ht.closed_le, ?_⟩
  rw [List.count_append, List.count_append, hs.count_eq, ht.count_eq]

theorem Balanced.cons_of_ne {c : Char} (hopening : c ≠ opening) (hclosing : c ≠ closing) {t : Text}
    (h : Balanced opening closing t) : Balanced opening closing (c :: t) :=
  Balanced.append (s := [c])
    (balanced_of_forall_ne (List.forall_mem_singleton.mpr ⟨hopening, hclosing⟩)) h

theorem Balanced.flatMap {α : Type} {l : List α} {f : α → Text}
    (h : ∀ a ∈ l, Balanced opening closing (f a)) :
    Balanced opening closing (l.flatMap f) := by
  induction l with
  | nil => exact balanced_of_forall_ne (by simp)
  | cons a l ih =>
      rw [List.flatMap_cons]
      exact (h a (by simp)).append (ih fun b hb => h b (by simp [hb]))

theorem Balanced.enclose {t : Text} (hne : opening ≠ closing) (h : Balanced opening closing t) :
    Balanced opening closing (opening :: t ++ [closing]) := by
  have hopen : ∀ s : Text, (opening :: s).count opening = s.count opening + 1 ∧
      (opening :: s).count closing = s.count closing := by
    intro s
    simp [hne]
  have hclose : ∀ s : Text, (s ++ [closing]).count opening = s.count opening ∧
      (s ++ [closing]).count closing = s.count closing + 1 := by
    intro s
    simp [List.count_append, hne.symm]
  have hcount := h.count_eq
  refine ⟨?_, ?_⟩
  · intro start hstart
    rcases List.prefix_concat_iff.mp ((List.mem_inits _ _).mp hstart) with rfl | hstart
    · have h1 := hclose (opening :: t)
      have h2 := hopen t
      omega
    · rcases List.prefix_cons_iff.mp hstart with rfl | ⟨rest, rfl, hrest⟩
      · simp
      · have h1 := hopen rest
        have h2 := h.closed_le rest ((List.mem_inits _ _).mpr hrest)
        omega
  · have h1 := hclose (opening :: t)
    have h2 := hopen t
    omega

theorem Balanced.between {c d : Char} (hc : c ≠ opening ∧ c ≠ closing)
    (hd : d ≠ opening ∧ d ≠ closing) {t : Text} (h : Balanced opening closing t) :
    Balanced opening closing (c :: t ++ [d]) :=
  (h.cons_of_ne hc.1 hc.2).append (balanced_of_forall_ne (List.forall_mem_singleton.mpr hd))

/-! ## Blocks -/

theorem blockInside?_opening (depth : Nat) (rest : Text) :
    blockInside? opening closing depth (opening :: rest) =
      (blockInside? opening closing (depth + 1) rest).map (opening :: ·) := by
  rw [blockInside?.eq_def]
  simp only [if_true]

theorem blockInside?_closing (hne : opening ≠ closing) (depth : Nat) (rest : Text) :
    blockInside? opening closing (depth + 1) (closing :: rest) =
      (blockInside? opening closing depth rest).map (closing :: ·) := by
  rw [blockInside?.eq_def]
  simp only [if_neg hne.symm, if_true]

theorem blockInside?_closing_zero (hne : opening ≠ closing) (rest : Text) :
    blockInside? opening closing 0 (closing :: rest) = some [] := by
  rw [blockInside?.eq_def]
  simp only [if_neg hne.symm, if_true]

theorem blockInside?_of_ne {c : Char} (hopening : c ≠ opening) (hclosing : c ≠ closing)
    (depth : Nat) (rest : Text) :
    blockInside? opening closing depth (c :: rest) =
      (blockInside? opening closing depth rest).map (c :: ·) := by
  rw [blockInside?.eq_def]
  simp only [if_neg hopening, if_neg hclosing]

/-- A text that closes no more than is open is passed, and leaves the depth at which it ends. -/
theorem blockInside?_append (hne : opening ≠ closing) {t : Text} {depth : Nat}
    (h : ∀ start, start <+: t → start.count closing ≤ depth + start.count opening) (rest : Text) :
    blockInside? opening closing depth (t ++ rest) =
      (blockInside? opening closing (depth + t.count opening - t.count closing) rest).map
        (t ++ ·) := by
  induction t generalizing depth with
  | nil => simp
  | cons c t ih =>
      have htail : ∀ start, start <+: t →
          (c :: start).count closing ≤ depth + (c :: start).count opening :=
        fun start hstart => h (c :: start) ((List.prefix_cons_inj c).mpr hstart)
      rw [List.cons_append]
      by_cases hopening : c = opening
      · subst hopening
        simp only [List.count_cons_self, List.count_cons_of_ne hne] at htail ⊢
        rw [blockInside?_opening, ih fun start hstart => by have := htail start hstart; omega,
          Option.map_map, show depth + 1 + t.count c - t.count closing =
            depth + (t.count c + 1) - t.count closing by omega]
        rfl
      by_cases hclosing : c = closing
      · subst hclosing
        simp only [List.count_cons_self, List.count_cons_of_ne hopening] at htail ⊢
        have hdepth := htail [] List.nil_prefix
        simp only [List.count_nil] at hdepth
        obtain ⟨inner, rfl⟩ : ∃ inner, depth = inner + 1 := ⟨depth - 1, by omega⟩
        rw [blockInside?_closing hne,
          ih fun start hstart => by have := htail start hstart; omega, Option.map_map,
          show inner + t.count opening - t.count c =
            inner + 1 + t.count opening - (t.count c + 1) by omega]
        rfl
      · simp only [List.count_cons_of_ne hopening, List.count_cons_of_ne hclosing] at htail ⊢
        rw [blockInside?_of_ne hopening hclosing, ih htail, Option.map_map]
        rfl

/-- A block is never closed by text that never closes more than it opens. -/
theorem blockInside?_eq_none (hne : opening ≠ closing) {t : Text}
    (h : NeverCloses opening closing t) : blockInside? opening closing 0 t = none := by
  have hstarts : ∀ start, start <+: t → start.count closing ≤ 0 + start.count opening := by
    intro start hstart
    have := h start ((List.mem_inits _ _).mpr hstart)
    omega
  rw [← List.append_nil t, blockInside?_append hne hstarts]
  rfl

/-- The inside of a block is the balanced text before its closing mark. -/
theorem blockInside?_of_balanced (hne : opening ≠ closing) {t : Text}
    (h : Balanced opening closing t) (rest : Text) :
    blockInside? opening closing 0 (t ++ closing :: rest) = some t := by
  rw [blockInside?_append hne (by
    intro start hstart
    have := h.closed_le start ((List.mem_inits _ _).mpr hstart)
    omega)]
  rw [h.count_eq, Nat.zero_add, Nat.sub_self, blockInside?_closing_zero hne, Option.map_some,
    List.append_nil]

/-- A block that was found closes no more than is open before its end. -/
theorem eq_append_of_blockInside? (hne : opening ≠ closing) {t inside : Text} {depth : Nat}
    (h : blockInside? opening closing depth t = some inside) :
    (∃ rest, t = inside ++ closing :: rest) ∧
      (∀ start, start <+: inside → start.count closing ≤ depth + start.count opening) ∧
      inside.count closing = depth + inside.count opening := by
  induction t generalizing depth inside with
  | nil => exact absurd h (by simp [blockInside?])
  | cons c t ih =>
      by_cases hend : c = closing ∧ depth = 0
      · obtain ⟨rfl, rfl⟩ := hend
        rw [blockInside?_closing_zero hne] at h
        cases h
        exact ⟨⟨t, rfl⟩, by simp, by simp⟩
      · have hstep : ∀ start, start <+: [c] →
            start.count closing ≤ depth + start.count opening := by
          intro start hstart
          rcases List.prefix_cons_iff.mp hstart with rfl | ⟨tail, rfl, htail⟩
          · simp
          · rw [List.prefix_nil.mp htail, List.count_singleton]
            split
            next hc =>
              have hdepth : depth ≠ 0 := fun hdepth => hend ⟨by simpa using hc, hdepth⟩
              omega
            next => omega
        rw [← List.singleton_append, blockInside?_append hne hstep] at h
        obtain ⟨inner, hinner, rfl⟩ := Option.map_eq_some_iff.mp h
        obtain ⟨⟨rest, rfl⟩, hstart, hcount⟩ := ih hinner
        have hone := hstep [c] List.prefix_rfl
        refine ⟨⟨rest, rfl⟩, ?_, ?_⟩
        · intro start hprefix
          rcases List.prefix_cons_iff.mp hprefix with rfl | ⟨tail, rfl, htail⟩
          · simp
          · have hinside := hstart tail htail
            rw [← List.singleton_append, List.count_append, List.count_append]
            omega
        · rw [List.count_append, List.count_append]
          omega

theorem count_le_of_blockInside?_eq_none (hne : opening ≠ closing) {t : Text} {depth : Nat}
    (h : blockInside? opening closing depth t = none) :
    t.count closing ≤ depth + t.count opening := by
  induction t generalizing depth with
  | nil => simp
  | cons c t ih =>
      by_cases hopening : c = opening
      · subst hopening
        rw [blockInside?_opening, Option.map_eq_none_iff] at h
        have htail := ih h
        rw [List.count_cons_of_ne hne, List.count_cons_self]
        omega
      by_cases hclosing : c = closing
      · subst hclosing
        cases depth with
        | zero =>
            rw [blockInside?_closing_zero hne] at h
            cases h
        | succ depth =>
            rw [blockInside?_closing hne, Option.map_eq_none_iff] at h
            have htail := ih h
            rw [List.count_cons_of_ne hopening, List.count_cons_self]
            omega
      · rw [blockInside?_of_ne hopening hclosing, Option.map_eq_none_iff] at h
        rw [List.count_cons_of_ne hopening, List.count_cons_of_ne hclosing]
        exact ih h

theorem Balanced.blockInside?_ne_none (hne : opening ≠ closing) {front later : Text}
    (h : Balanced opening closing (front ++ opening :: later)) :
    blockInside? opening closing 0 later ≠ none := by
  intro hnone
  have hlater := count_le_of_blockInside?_eq_none hne hnone
  have hfront := h.closed_le front ((List.mem_inits _ _).mpr (List.prefix_append _ _))
  have hcount := h.count_eq
  rw [List.count_append, List.count_append, List.count_cons_of_ne hne, List.count_cons_self]
    at hcount
  omega

theorem balanced_of_blockInside? (hne : opening ≠ closing) {t inside : Text}
    (h : blockInside? opening closing 0 t = some inside) :
    (∃ rest, t = inside ++ closing :: rest) ∧ Balanced opening closing inside := by
  obtain ⟨hrest, hstart, hcount⟩ := eq_append_of_blockInside? hne h
  refine ⟨hrest, ?_, ?_⟩
  · intro start hmem
    have := hstart start ((List.mem_inits _ _).mp hmem)
    omega
  · omega

/-! ## Targets and keywords -/

theorem groupDepthAfter_of_ne {c : Char} (h : c ∉ ['{', '(', '}', ')']) (depth : Nat) :
    groupDepthAfter depth c = depth := by
  simp only [List.mem_cons, List.not_mem_nil, or_false, not_or] at h
  simp [groupDepthAfter]
  split <;> simp_all

theorem upToTarget?_pass {targets : List Char} {t : Text}
    (h : ∀ c ∈ t, c ∉ targets ∧ c ∉ ['{', '(', '}', ')']) (rest : Text) :
    upToTarget? targets 0 (t ++ rest) =
      (upToTarget? targets 0 rest).map fun found => (t ++ found.1, found.2) := by
  induction t with
  | nil => simp
  | cons c t ih =>
      obtain ⟨⟨hc, hgroup⟩, h⟩ := List.forall_mem_cons.mp h
      have hnot : ¬ (0 == 0 && targets.contains c) = true := by
        simpa using hc
      rw [List.cons_append, upToTarget?, if_neg hnot, groupDepthAfter_of_ne hgroup, ih h,
        Option.map_map]
      rfl

/-- The first target stands behind text that holds none and opens and closes nothing. -/
theorem upToTarget?_append {targets : List Char} {t : Text} {c : Char} (hc : c ∈ targets)
    (h : ∀ d ∈ t, d ∉ targets ∧ d ∉ ['{', '(', '}', ')']) (rest : Text) :
    upToTarget? targets 0 (t ++ c :: rest) = some (t, c) := by
  rw [upToTarget?_pass h, upToTarget?, if_pos (by simpa using hc), Option.map_some,
    List.append_nil]

theorem eq_append_of_upToTarget? {targets : List Char} {depth : Nat} {t part : Text} {c : Char}
    (h : upToTarget? targets depth t = some (part, c)) :
    c ∈ targets ∧ ∃ rest, t = part ++ c :: rest := by
  induction t generalizing depth part with
  | nil => exact absurd h (by simp [upToTarget?])
  | cons d t ih =>
      rw [upToTarget?] at h
      split at h
      next hfound =>
        cases h
        rw [Bool.and_eq_true, List.contains_iff_mem] at hfound
        exact ⟨hfound.2, t, rfl⟩
      next =>
        obtain ⟨⟨inner, found⟩, hinner, heq⟩ := Option.map_eq_some_iff.mp h
        cases heq
        obtain ⟨hc, rest, rfl⟩ := ih hinner
        exact ⟨hc, rest, rfl⟩

/-- Every target in a text is nested: the depth of the text before it is not zero. -/
def Nests (depthAfter : Nat → Char → Nat) (targets : List Char) (depth : Nat) (t : Text) : Prop :=
  ∀ front c back, t = front ++ c :: back → c ∈ targets → front.foldl depthAfter depth ≠ 0

theorem nests_nil (depthAfter : Nat → Char → Nat) (targets : List Char) (depth : Nat) :
    Nests depthAfter targets depth [] := by
  intro front c back h
  exact absurd h (by simp)

theorem nests_cons_iff {depthAfter : Nat → Char → Nat} {targets : List Char} {depth : Nat}
    {c : Char} {t : Text} :
    Nests depthAfter targets depth (c :: t) ↔
      (c ∈ targets → depth ≠ 0) ∧ Nests depthAfter targets (depthAfter depth c) t := by
  constructor
  · intro h
    refine ⟨h [] c t rfl, ?_⟩
    rintro front d back rfl hd
    exact h (c :: front) d back rfl hd
  · rintro ⟨hc, h⟩ front d back ht hd
    cases front with
    | nil =>
        obtain ⟨rfl, -⟩ := List.cons.inj ht
        exact hc hd
    | cons e front =>
        obtain ⟨rfl, rfl⟩ := List.cons.inj ht
        exact h front d back rfl hd

theorem Nests.of_append {depthAfter : Nat → Char → Nat} {targets : List Char} {depth : Nat}
    {s t : Text} (h : Nests depthAfter targets depth (s ++ t)) :
    Nests depthAfter targets depth s := by
  rintro front c back rfl
  exact h front c (back ++ t) (by simp)

/-- Text that a search for targets passes: each target in it is nested, and nothing is nested at
its end. -/
structure IsPassed (targets : List Char) (depth : Nat) (part : Text) : Prop where
  nests : Nests groupDepthAfter targets depth part
  closed : part.foldl groupDepthAfter depth = 0

theorem isPassed_cons_iff {targets : List Char} {depth : Nat} {part : Text} {d : Char} :
    IsPassed targets depth (d :: part) ↔
      (d ∈ targets → depth ≠ 0) ∧ IsPassed targets (groupDepthAfter depth d) part := by
  constructor
  · intro h
    obtain ⟨hd, hpart⟩ := nests_cons_iff.mp h.nests
    exact ⟨hd, hpart, h.closed⟩
  · rintro ⟨hd, h⟩
    exact ⟨nests_cons_iff.mpr ⟨hd, h.nests⟩, h.closed⟩

theorem isPassed_of_upToTarget? {targets : List Char} {depth : Nat} {t part : Text} {c : Char}
    (h : upToTarget? targets depth t = some (part, c)) :
    IsPassed targets depth part := by
  induction t generalizing depth part with
  | nil => exact absurd h (by simp [upToTarget?])
  | cons d t ih =>
      rw [upToTarget?] at h
      split at h
      next hfound =>
        cases h
        rw [Bool.and_eq_true, beq_iff_eq] at hfound
        exact ⟨nests_nil _ _ _, hfound.1⟩
      next hnot =>
        obtain ⟨⟨inner, found⟩, hinner, heq⟩ := Option.map_eq_some_iff.mp h
        cases heq
        refine isPassed_cons_iff.mpr ⟨?_, ih hinner⟩
        rintro hd rfl
        exact hnot (by simpa using hd)

theorem upToTarget?_of_isPassed {targets : List Char} {depth : Nat} {part : Text} {c : Char}
    (hc : c ∈ targets) (h : IsPassed targets depth part) (rest : Text) :
    upToTarget? targets depth (part ++ c :: rest) = some (part, c) := by
  induction part generalizing depth with
  | nil =>
      obtain rfl : depth = 0 := h.closed
      simp [upToTarget?, hc]
  | cons d part ih =>
      obtain ⟨hd, h⟩ := isPassed_cons_iff.mp h
      have hnot : ¬ (depth == 0 && targets.contains d) = true := by
        rw [Bool.and_eq_true, beq_iff_eq, List.contains_iff_mem]
        exact fun hfound => hd hfound.2 hfound.1
      rw [List.cons_append, upToTarget?, if_neg hnot, ih h]
      rfl

/-- If every opening mark is a target, nothing is nested before the first target. -/
theorem upToTarget?_eq_map_head? {targets : List Char} (hbrace : '{' ∈ targets)
    (hparen : '(' ∈ targets) (t : Text) :
    upToTarget? targets 0 t = (t.dropWhile (!targets.contains ·)).head?.map
      fun c => (t.takeWhile (!targets.contains ·), c) := by
  induction t with
  | nil => rfl
  | cons d t ih =>
      by_cases hd : d ∈ targets
      · simp [upToTarget?, hd]
      · have hdepth : groupDepthAfter 0 d = 0 := by
          unfold groupDepthAfter
          split
          · exact absurd hbrace hd
          · exact absurd hparen hd
          all_goals rfl
        rw [upToTarget?, hdepth, ih]
        simp [hd, Option.map_map, Function.comp_def]

theorem not_mem_targets_of_upToTarget? {targets : List Char} (hbrace : '{' ∈ targets)
    (hparen : '(' ∈ targets) {t part : Text} {c : Char}
    (h : upToTarget? targets 0 t = some (part, c)) : ∀ d ∈ part, d ∉ targets := by
  rw [upToTarget?_eq_map_head? hbrace hparen, Option.map_eq_some_iff] at h
  obtain ⟨found, -, heq⟩ := h
  cases heq
  intro d hd
  simpa using List.mem_takeWhile_imp hd

theorem afterWord?_append {keyword rest : Text} {before? : Option Char}
    (hbefore : separatesWords before? = true) (hrest : separatesWords rest.head? = true) :
    afterWord? keyword before? (keyword ++ rest) = some rest := by
  simp [afterWord?, afterStart?_append, hbefore, hrest]

theorem afterWord?_eq_none_of_ne {k c : Char} {keyword rest : Text} {before? : Option Char}
    (h : k ≠ c) : afterWord? (k :: keyword) before? (c :: rest) = none := by
  simp [afterWord?, afterStart?, h]

theorem ne_nil_of_head?_any {t : Text} {test : Char → Bool} (h : t.head?.any test = true) :
    t ≠ [] := by
  rintro rfl
  exact Bool.false_ne_true h

/-- What neither holds a name character nor a brace. -/
def IsGap (t : Text) : Prop := ∀ c ∈ t, isNameChar c = false ∧ c ≠ '{' ∧ c ≠ '}'

theorem IsGap.of_forall_eq_blank {t : Text} (h : ∀ c ∈ t, c = ' ' ∨ c = '\n') : IsGap t := by
  intro c hc
  rcases h c hc with rfl | rfl <;> decide

theorem IsGap.of_isBlank {t : Text} (h : ∀ c ∈ t, isBlank c = true) : IsGap t := by
  intro c hc
  have hblank := h c hc
  refine ⟨isNameChar_of_isBlank hblank, ?_, ?_⟩ <;>
    · rintro rfl
      revert hblank
      decide

theorem braceDepthAfter_of_ne {c : Char} (hopen : c ≠ '{') (hclose : c ≠ '}') (depth : Nat) :
    braceDepthAfter depth c = depth := by
  rw [braceDepthAfter]
  · exact hopen
  · exact hclose

theorem offsetOfKeyword?_gap {keyword : Text} (hkeyword : keyword.head?.any isNameChar = true)
    {gap : Text} (hgap : IsGap gap) (before? : Option Char) :
    offsetOfKeyword? keyword 0 before? gap = none := by
  obtain ⟨k, word, rfl⟩ := List.exists_cons_of_ne_nil (ne_nil_of_head?_any hkeyword)
  induction gap generalizing before? with
  | nil => rfl
  | cons c gap ih =>
      obtain ⟨hc, hopen, hclose⟩ := hgap c (by simp)
      rw [offsetOfKeyword?, afterWord?_eq_none_of_ne (ne_of_isNameChar hkeyword hc),
        braceDepthAfter_of_ne hopen hclose, ih fun d hd => hgap d (by simp [hd])]
      simp

theorem offsetOfKeyword?_gap_append {keyword : Text}
    (hkeyword : keyword.head?.any isNameChar = true) {gap : Text} (hgap : IsGap gap)
    {before? : Option Char} (hbefore : separatesWords (gap.getLast?.or before?) = true)
    {rest : Text} (hrest : separatesWords rest.head? = true) :
    offsetOfKeyword? keyword 0 before? (gap ++ (keyword ++ rest)) = some (size gap) := by
  obtain ⟨k, word, rfl⟩ := List.exists_cons_of_ne_nil (ne_nil_of_head?_any hkeyword)
  induction gap generalizing before? with
  | nil =>
      have hword : afterWord? (k :: word) before? (k :: (word ++ rest)) = some rest :=
        afterWord?_append hbefore hrest
      have hopen : k ≠ '{' := ne_of_isNameChar hkeyword (by decide)
      have hclose : k ≠ '}' := ne_of_isNameChar hkeyword (by decide)
      rw [List.nil_append, List.cons_append, offsetOfKeyword?, hword]
      simp [hopen, hclose]
  | cons c gap ih =>
      obtain ⟨hc, hopen, hclose⟩ := hgap c (by simp)
      have hlast : separatesWords (gap.getLast?.or (some c)) = true := by
        cases hgap' : gap.getLast? with
        | none => simp [separatesWords, hc]
        | some d =>
            rw [List.getLast?_cons, hgap'] at hbefore
            simpa using hbefore
      have hfound := ih (fun d hd => hgap d (by simp [hd])) hlast
      rw [List.cons_append, offsetOfKeyword?,
        afterWord?_eq_none_of_ne (ne_of_isNameChar hkeyword hc),
        braceDepthAfter_of_ne hopen hclose, hfound]
      simp

/-! ## Parts between separators -/

theorem bracketDepthAfter_of_not_isBracket {c : Char} (h : isBracket c = false) (depth : Nat) :
    bracketDepthAfter depth c = depth := by
  simp only [isBracket, List.mem_cons, List.not_mem_nil, or_false, decide_eq_false_iff_not,
    not_or] at h
  simp [bracketDepthAfter]
  split <;> simp_all

theorem isBracket_eq_false {test : Char → Bool} {c : Char} (h : test c = true)
    (htest : ['(', '[', '{', ')', ']', '}'].any test = false) : isBracket c = false := by
  refine decide_eq_false fun hmem => ?_
  exact List.any_eq_false.mp htest c hmem h

theorem isBracket_of_isNameChar {c : Char} (h : isNameChar c = true) : isBracket c = false :=
  isBracket_eq_false h (by decide)

theorem splitOutsideBrackets_ne_nil (separator : Char) (depth : Nat) (t : Text) :
    splitOutsideBrackets separator depth t ≠ [] := by
  cases t with
  | nil => simp [splitOutsideBrackets]
  | cons c t =>
      rw [splitOutsideBrackets]
      split
      · simp
      · split <;> simp

/-- A character that does not separate belongs to the part that it starts. -/
theorem splitOutsideBrackets_cons {separator c : Char} {depth : Nat}
    (h : ¬ (isBracket c = false ∧ c = separator ∧ depth = 0)) (t : Text) :
    splitOutsideBrackets separator depth (c :: t) =
      (splitOutsideBrackets separator (bracketDepthAfter depth c) t).modifyHead (c :: ·) := by
  obtain ⟨first, others, hparts⟩ := List.exists_cons_of_ne_nil
    (splitOutsideBrackets_ne_nil separator (bracketDepthAfter depth c) t)
  rw [splitOutsideBrackets, if_neg (by simpa [and_assoc] using h), hparts]
  rfl

theorem splitOutsideBrackets_append {separator : Char} {t : Text}
    (h : ∀ c ∈ t, c ≠ separator ∧ isBracket c = false) (depth : Nat) (rest : Text) :
    splitOutsideBrackets separator depth (t ++ rest) =
      (splitOutsideBrackets separator depth rest).modifyHead (t ++ ·) := by
  induction t with
  | nil =>
      rw [List.nil_append]
      cases splitOutsideBrackets separator depth rest <;> rfl
  | cons c t ih =>
      obtain ⟨hc, hbracket⟩ := h c (by simp)
      rw [List.cons_append, splitOutsideBrackets_cons (by simp [hc]),
        bracketDepthAfter_of_not_isBracket hbracket, ih fun d hd => h d (by simp [hd]),
        List.modifyHead_modifyHead]
      rfl

theorem splitTopLevel_eq_singleton {separator : Char} {t : Text}
    (h : ∀ c ∈ t, c ≠ separator ∧ isBracket c = false) : splitTopLevel separator t = [t] := by
  have hparts := splitOutsideBrackets_append h 0 []
  simpa [splitTopLevel, splitOutsideBrackets] using hparts

theorem splitTopLevel_append {separator : Char} (hseparator : isBracket separator = false)
    {t : Text} (h : ∀ c ∈ t, c ≠ separator ∧ isBracket c = false) (rest : Text) :
    splitTopLevel separator (t ++ separator :: rest) = t :: splitTopLevel separator rest := by
  rw [splitTopLevel, splitTopLevel, splitOutsideBrackets_append h, splitOutsideBrackets,
    if_pos (by simp [hseparator]), List.modifyHead_cons, List.append_nil]

end HeaderBindings.Header
