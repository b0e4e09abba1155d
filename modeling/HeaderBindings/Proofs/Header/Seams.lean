import HeaderBindings.Proofs.Header.Displaced
import HeaderBindings.Proofs.Header.Provenance
import HeaderBindings.Proofs.Header.Reports

/-! # Two headers in one text

A text that leaves no brace open and that is read without a problem can be followed by another
text on a new line: first the one is read and then the other, as each is by itself. -/

namespace HeaderBindings.Header

open List Text Cursor

/-! ## Depth -/

theorem foldl_eq_zero_of_upToWordAt? {keyword t part : Text} {depthAfter : Nat → Char → Nat}
    {depth : Nat} {before? : Option Char}
    (h : upToWordAt? keyword depthAfter depth before? t = some part) :
    part.foldl depthAfter depth = 0 := by
  induction t generalizing depth before? part with
  | nil => exact absurd h (by simp [upToWordAt?])
  | cons c t ih =>
      rw [upToWordAt?] at h
      split at h
      next hfound =>
        cases h
        exact hfound.1
      next =>
        obtain ⟨inner, hinner, rfl⟩ := Option.map_eq_some_iff.mp h
        rw [List.foldl_cons]
        exact ih hinner

theorem foldl_braceDepthAfter_of_forall {t : Text} (h : ∀ c ∈ t, c ≠ '{' ∧ c ≠ '}') (depth : Nat) :
    t.foldl braceDepthAfter depth = depth := by
  induction t with
  | nil => rfl
  | cons c t ih =>
      obtain ⟨hc, ht⟩ := List.forall_mem_cons.mp h
      rw [List.foldl_cons, braceDepthAfter_of_ne hc.1 hc.2, ih ht]

/-- The inside of a block closes the blocks that are open in it and none around it. -/
theorem foldl_braceDepthAfter_of_blockInside? {t inside : Text} {depth : Nat}
    (h : blockInside? '{' '}' depth t = some inside) (outer : Nat) :
    inside.foldl braceDepthAfter (depth + outer) = outer := by
  induction t generalizing depth inside with
  | nil => exact absurd h (by simp [blockInside?])
  | cons c t ih =>
      by_cases hopen : c = '{'
      · subst hopen
        rw [blockInside?_opening] at h
        obtain ⟨inner, hinner, rfl⟩ := Option.map_eq_some_iff.mp h
        rw [List.foldl_cons, braceDepthAfter, Nat.add_right_comm]
        exact ih hinner
      by_cases hclose : c = '}'
      · subst hclose
        cases depth with
        | zero =>
            rw [blockInside?_closing_zero (by decide)] at h
            cases h
            exact Nat.zero_add outer
        | succ depth =>
            rw [blockInside?_closing (by decide)] at h
            obtain ⟨inner, hinner, rfl⟩ := Option.map_eq_some_iff.mp h
            rw [List.foldl_cons, braceDepthAfter, Nat.add_right_comm, Nat.add_sub_cancel]
            exact ih hinner
      · rw [blockInside?_of_ne hopen hclose] at h
        obtain ⟨inner, hinner, rfl⟩ := Option.map_eq_some_iff.mp h
        rw [List.foldl_cons, braceDepthAfter_of_ne hopen hclose]
        exact ih hinner

/-! ## Searches over a seam -/

section Words

variable {keyword : Text} {c : Char}

theorem isSome_afterWord?_append_cons (hkeyword : ∀ c ∈ keyword, isNameChar c = true)
    (hc : isNameChar c = false) (before? : Option Char) (s t : Text) :
    (afterWord? keyword before? (s ++ c :: t)).isSome = (afterWord? keyword before? s).isSome := by
  rw [Bool.eq_iff_iff, Option.isSome_iff_exists, Option.isSome_iff_exists]
  constructor
  · rintro ⟨rest, hrest⟩
    obtain ⟨htext, hbefore, hbehind⟩ := afterWord?_eq_some_iff.mp hrest
    rcases List.append_eq_append_iff.mp htext with ⟨inner, rfl, hinner⟩ | ⟨inner, rfl, rfl⟩
    · cases inner with
      | nil => exact ⟨[], afterWord?_eq_some_iff.mpr ⟨by simp, hbefore, rfl⟩⟩
      | cons d inner =>
          obtain ⟨rfl, -⟩ := List.cons.inj hinner
          rw [hkeyword c (by simp)] at hc
          cases hc
    · refine ⟨inner, afterWord?_eq_some_iff.mpr ⟨rfl, hbefore, ?_⟩⟩
      cases inner with
      | nil => rfl
      | cons d inner => exact hbehind
  · rintro ⟨rest, hrest⟩
    obtain ⟨rfl, hbefore, hbehind⟩ := afterWord?_eq_some_iff.mp hrest
    refine ⟨rest ++ c :: t, afterWord?_eq_some_iff.mpr ⟨by simp, hbefore, ?_⟩⟩
    cases rest with
    | nil => exact separatesWords_some hc
    | cons d rest => exact hbehind

/-- A search that comes to such a character has searched the text before it, and starts again
behind it at the depth that it has there. -/
theorem upToWordAt?_append_cons (hne : keyword ≠ [])
    (hkeyword : ∀ c ∈ keyword, isNameChar c = true) (hc : isNameChar c = false)
    (depthAfter : Nat → Char → Nat) (depth : Nat) (before? : Option Char) (s t : Text) :
    upToWordAt? keyword depthAfter depth before? (s ++ c :: t) =
      (upToWordAt? keyword depthAfter depth before? s).or
        ((upToWordAt? keyword depthAfter (depthAfter (s.foldl depthAfter depth) c) (some c) t).map
          (s ++ c :: ·)) := by
  induction s generalizing depth before? with
  | nil =>
      have hnone : afterWord? keyword before? (c :: t) = none := by
        obtain ⟨k, word, rfl⟩ := List.exists_cons_of_ne_nil hne
        exact afterWord?_eq_none_of_ne (ne_of_isNameChar (hkeyword k (by simp)) hc)
      change upToWordAt? keyword depthAfter depth before? (c :: t) =
        (upToWordAt? keyword depthAfter (depthAfter depth c) (some c) t).map (c :: ·)
      rw [upToWordAt?, hnone, if_neg (by simp)]
  | cons d s ih =>
      have hword := isSome_afterWord?_append_cons hkeyword hc before? (d :: s) t
      rw [List.cons_append] at hword
      rw [List.cons_append, upToWordAt?, upToWordAt?, hword, ih]
      split
      · rfl
      · cases upToWordAt? keyword depthAfter (depthAfter depth d) (some d) s with
        | some part => rfl
        | none =>
            simp only [Option.map_none, Option.none_or, Option.map_map, List.foldl_cons]
            rfl

end Words

variable {before rest after gap scope : Text}

/-! ## Rounds over a seam -/

theorem namespaceRound_ne_finished
    (h : upToWordAt? "namespace" braceDepthAfter 0 before.getLast? rest = some gap) (after : Text) :
    namespaceRound (amid before rest after) ≠ .ok .finished := by
  obtain ⟨blanks, scope, tail, rfl, hblanks, hstart, hscope, hend⟩ := exists_announcement h
  rw [namespaceRound_of_keyword h hblanks hstart hscope hend]
  simp only
  split
  · exact fun heq => nomatch heq
  · intro hround
    obtain ⟨s, -, hround⟩ := bind_eq_ok_iff.mp hround
    obtain ⟨⟨block, next⟩, -, hround⟩ := bind_eq_ok_iff.mp hround
    cases block with
    | error cause =>
        cases cause with
        | unterminated opening offset =>
            obtain ⟨next, -, hround⟩ := bind_eq_ok_iff.mp hround
            cases hround
        | expected opening offset => cases hround
    | ok range =>
        obtain ⟨found, -, hround⟩ := bind_eq_ok_iff.mp hround
        cases hround

/-- What follows a body does not matter for what is found in it without a problem. -/
theorem collect_functionRound_of_clean {found : Findings NativeFunction}
    (h : collect (functionRound scope) (amid before rest after) = .ok found)
    (hclean : found.problems = []) (after' : Text) :
    collect (functionRound scope) (amid before rest after') = .ok found := by
  have hfront : separatesWords ([] : Text).getLast? = true := rfl
  have hagree := agree_collect_functionRound_behind hfront scope (.intro before rest after after')
  rw [h, List.nil_append] at hagree
  generalize hfound : collect (functionRound scope) (amid before rest after') = outcome at hagree
  cases hagree with
  | @ok _ found' hmoved =>
      have hitems : found'.items = found.items := by simpa using hmoved.items
      have hproblems : found'.problems = found.problems := by
        have hdiagnostics := hmoved.diagnostics
        simp only [Findings.diagnostics, hclean, List.map_nil, List.map_eq_nil_iff] at hdiagnostics
        rw [hdiagnostics, hclean]
      obtain ⟨items, problems⟩ := found
      obtain ⟨items', problems'⟩ := found'
      obtain rfl : items' = items := hitems
      obtain rfl : problems' = problems := hproblems
      rfl

theorem exists_block_of_clean {place : Span} {batch : Findings NativeFunction} {next : Cursor}
    (h : scopeRound scope place (amid before rest after) = .ok (.found batch next))
    (hclean : batch.problems = []) :
    ∃ space inside left, rest = space ++ '{' :: (inside ++ '}' :: left) ∧
      (∀ c ∈ space, isBlank c = true) ∧
      blockInside? '{' '}' 0 (inside ++ '}' :: left) = some inside ∧
      collect (functionRound scope)
        (amid (before ++ space ++ ['{']) inside ('}' :: (left ++ after))) = .ok batch ∧
      next = amid (before ++ space ++ '{' :: (inside ++ ['}'])) left after := by
  obtain ⟨space, tail, rfl, hspace, htail⟩ := exists_run_append isBlank rest
  by_cases hbody : tail.head? = some '{'
  · obtain ⟨left, rfl⟩ := List.head?_eq_some_iff.mp hbody
    cases hblock : blockInside? '{' '}' 0 left with
    | none =>
        rw [scopeRound_of_unclosed hspace hblock] at h
        obtain ⟨next, -, h⟩ := bind_eq_ok_iff.mp h
        cases h
        cases hclean
    | some inside =>
        obtain ⟨⟨left, rfl⟩, hinside⟩ := balanced_of_blockInside? (by decide) hblock
        rw [scopeRound_of_balanced hspace hinside] at h
        obtain ⟨found, hfound, h⟩ := bind_eq_ok_iff.mp h
        cases h
        exact ⟨space, inside, left, rfl, hspace, hblock, hfound, rfl⟩
  · rw [scopeRound_of_ne hspace htail hbody] at h
    cases h
    cases hclean

theorem foldl_braceDepthAfter_block {blanks space inside t : Text}
    (hgap : gap.foldl braceDepthAfter 0 = 0) (hblanks : ∀ c ∈ blanks, isBlank c = true)
    (hscope : ∀ c ∈ scope, isNameChar c = true) (hspace : ∀ c ∈ space, isBlank c = true)
    (hinside : blockInside? '{' '}' 0 t = some inside) :
    (gap ++ ("namespace".toList ++ (blanks ++ (scope ++ (space ++ '{' ::
      (inside ++ ['}'])))))).foldl braceDepthAfter 0 = 0 := by
  have hblank : ∀ gap : Text, (∀ c ∈ gap, isBlank c = true) → ∀ c ∈ gap, c ≠ '{' ∧ c ≠ '}' :=
    fun gap hgap c hc => (IsGap.of_isBlank hgap c hc).2
  have hname : ∀ word : Text, (∀ c ∈ word, isNameChar c = true) → ∀ c ∈ word, c ≠ '{' ∧ c ≠ '}' :=
    fun word hword c hc => ⟨ne_of_isNameChar (hword c hc) (by decide),
      ne_of_isNameChar (hword c hc) (by decide)⟩
  have hdepth := foldl_braceDepthAfter_of_blockInside? hinside 1
  simp only [List.foldl_append, List.foldl_cons, List.foldl_nil, hgap]
  rw [foldl_braceDepthAfter_of_forall (hname _ isNameChar_of_mem_namespace),
    foldl_braceDepthAfter_of_forall (hblank blanks hblanks),
    foldl_braceDepthAfter_of_forall (hname scope hscope),
    foldl_braceDepthAfter_of_forall (hblank space hspace)]
  exact congrArg (braceDepthAfter · '}') hdepth

/-- A round that reports nothing reads a block that leaves no brace open, and does so whatever
follows on a new line. -/
theorem exists_read_of_clean {batch : Findings NativeFunction} {next : Cursor}
    (h : namespaceRound (amid before rest []) = .ok (.found batch next))
    (hclean : batch.problems = []) :
    ∃ part left, rest = part ++ left ∧ part ≠ [] ∧ next = amid (before ++ part) left [] ∧
      part.foldl braceDepthAfter 0 = 0 ∧ ∀ more,
        namespaceRound (amid before (rest ++ '\n' :: more) []) =
          .ok (.found batch (amid (before ++ part) (left ++ '\n' :: more) [])) := by
  cases hkeyword : upToWordAt? "namespace" braceDepthAfter 0 before.getLast? rest with
  | none =>
      rw [namespaceRound_of_keyword_none hkeyword] at h
      cases h
  | some gap =>
      obtain ⟨blanks, scope, tail, rfl, hblanks, hstart, hscope, hend⟩ :=
        exists_announcement hkeyword
      rw [namespaceRound_of_keyword hkeyword hblanks hstart hscope hend] at h
      simp only at h
      split at h
      next =>
        cases h
        cases hclean
      next hne =>
        obtain ⟨space, inside, left, rfl, hspace, hblock, hfound, rfl⟩ :=
          exists_block_of_clean h hclean
        have hinside := (balanced_of_blockInside? (by decide) hblock).2
        refine ⟨gap ++ ("namespace".toList ++ (blanks ++ (scope ++ (space ++ '{' ::
          (inside ++ ['}']))))), left, by simp, by simp, by simp, ?_, ?_⟩
        · exact foldl_braceDepthAfter_block (foldl_eq_zero_of_upToWordAt? hkeyword) hblanks hscope
            hspace hblock
        · intro more
          have hsearch := upToWordAt?_append_cons (by decide) isNameChar_of_mem_namespace
            (by decide : isNameChar '\n' = false) braceDepthAfter 0 before.getLast?
            (gap ++ ("namespace".toList ++ (blanks ++ (scope ++ (space ++ '{' ::
              (inside ++ '}' :: left)))))) more
          have htext : gap ++ ("namespace".toList ++ (blanks ++ (scope ++ (space ++ '{' ::
              (inside ++ '}' :: left))))) ++ '\n' :: more =
                gap ++ ("namespace".toList ++ (blanks ++ (scope ++ (space ++ '{' ::
                  (inside ++ '}' :: (left ++ '\n' :: more)))))) := by simp
          rw [hkeyword, Option.some_or, htext] at hsearch
          rw [htext, namespaceRound_of_keyword hsearch hblanks ?_ hscope ?_]
          · simp only
            rw [if_neg hne, scopeRound_of_balanced hspace hinside,
              collect_functionRound_of_clean hfound hclean]
            simp only [ok_bind, pure_eq_ok, List.append_assoc]
          · simpa using hstart
          · simpa using hend

/-- Where no further namespace is announced, the next round starts behind the seam. -/
theorem namespaceRound_append_newline
    (h : upToWordAt? "namespace" braceDepthAfter 0 before.getLast? rest = none)
    (hdepth : rest.foldl braceDepthAfter 0 = 0) (t : Text) :
    namespaceRound (amid before (rest ++ '\n' :: t) []) =
      namespaceRound (amid (before ++ (rest ++ ['\n'])) t []) := by
  have hlast : (before ++ (rest ++ ['\n'])).getLast? = some '\n' := by simp
  have hsearch := upToWordAt?_append_cons (by decide) isNameChar_of_mem_namespace
    (by decide : isNameChar '\n' = false) braceDepthAfter 0 before.getLast? rest t
  rw [h, Option.none_or, hdepth, ← hlast] at hsearch
  cases hkeyword : upToWordAt? "namespace" braceDepthAfter 0 (before ++ (rest ++ ['\n'])).getLast? t
    with
  | none =>
      rw [namespaceRound_of_keyword_none hkeyword]
      exact namespaceRound_of_keyword_none (hsearch.trans (congrArg _ hkeyword)) []
  | some gap =>
      obtain ⟨blanks, scope, tail, rfl, hblanks, hstart, hscope, hend⟩ :=
        exists_announcement hkeyword
      have htext : rest ++ '\n' :: (gap ++ ("namespace".toList ++ (blanks ++ (scope ++ tail)))) =
          rest ++ '\n' :: gap ++ ("namespace".toList ++ (blanks ++ (scope ++ tail))) := by simp
      have hsearch := hsearch.trans (congrArg _ hkeyword)
      rw [htext] at hsearch ⊢
      rw [namespaceRound_of_keyword hsearch hblanks hstart hscope hend,
        namespaceRound_of_keyword hkeyword hblanks hstart hscope hend]
      simp [Nat.add_assoc]

/-- Behind a text that is read without a problem and leaves no brace open, reading goes on with
what follows on a new line. -/
theorem collect_namespaceRound_append_newline {found : Findings NativeFunction}
    (h : collect namespaceRound (amid before rest []) = .ok found) (hclean : found.problems = [])
    (hdepth : rest.foldl braceDepthAfter 0 = 0) (t : Text) :
    collect namespaceRound (amid before (rest ++ '\n' :: t) []) = do
      return found ++ (← collect namespaceRound (amid (before ++ (rest ++ ['\n'])) t [])) := by
  refine collect_induction (fun s => ∃ before rest, s = amid before rest [])
    (motive := fun s found => ∀ before rest, s = amid before rest [] → found.problems = [] →
      rest.foldl braceDepthAfter 0 = 0 →
        collect namespaceRound (amid before (rest ++ '\n' :: t) []) = do
          return found ++ (← collect namespaceRound (amid (before ++ (rest ++ ['\n'])) t [])))
    ?_ ?_ ⟨before, rest, rfl⟩ h before rest rfl hclean hdepth
  · rintro s - hround before rest rfl - hdepth
    have hkeyword : upToWordAt? "namespace" braceDepthAfter 0 before.getLast? rest = none := by
      cases hkeyword : upToWordAt? "namespace" braceDepthAfter 0 before.getLast? rest with
      | none => rfl
      | some gap => exact absurd hround (namespaceRound_ne_finished hkeyword [])
    rw [collect_congr (namespaceRound_append_newline hkeyword hdepth t)
      (fun _ _ => remaining_lt_of_namespaceRound) (fun _ _ => remaining_lt_of_namespaceRound)]
    cases collect namespaceRound (amid (before ++ (rest ++ ['\n'])) t []) <;> rfl
  · rintro _ batch next ⟨_, _, rfl⟩ hround
    refine ⟨remaining_lt_of_namespaceRound hround, ?_, ?_⟩
    · obtain ⟨part, left, -, -, rfl⟩ := exists_next_of_namespaceRound hround
      exact ⟨_, _, rfl⟩
    · intro later hlater before rest hcursor hclean hdepth
      obtain ⟨hbatch, hlaterClean⟩ := List.append_eq_nil_iff.mp hclean
      rw [hcursor] at hround
      obtain ⟨part, left, rfl, hpart, rfl, hclosed, hmore⟩ := exists_read_of_clean hround hbatch
      rw [List.foldl_append, hclosed] at hdepth
      have hleft := hlater (before ++ part) left rfl hlaterClean hdepth
      have hforward := remaining_lt_of_namespaceRound (hmore t)
      rw [collect, hmore t, ok_bind]
      simp only [dif_pos hforward, hleft]
      rw [List.append_assoc before, List.append_assoc part]
      cases collect namespaceRound (amid (before ++ (part ++ (left ++ ['\n']))) t []) with
      | error cut => rfl
      | ok last => exact congrArg Except.ok (Findings.append_assoc batch later last).symm

/-! ## Places behind a seam -/

theorem offset_of_mem_labels {problem : Problem} {span : Span}
    (h : problem.diagnostic.span = some span) :
    ∀ label ∈ problem.diagnostic.labels, label.offset = span.start := by
  cases problem <;> cases h <;> simp [Problem.diagnostic, blockDiagnostic]

/-- What is found in a text that follows another: what the one gives, and then what the other
gives, its places moved by the whole number of bytes before it. -/
structure Continues (n : Nat) (first second found : Findings NativeFunction) : Prop where
  items : found.items = first.items ++ second.items.map (·.moved n)
  diagnostics : found.diagnostics = second.diagnostics.map (·.moved n)
  movesBy_items : ∀ d ∈ second.items, d.span.MovesBy n
  movesBy_diagnostics : ∀ d ∈ second.diagnostics, ∀ span ∈ d.span, span.MovesBy n
  offset_labels : ∀ d ∈ second.diagnostics, ∀ label ∈ d.labels,
    (label.moved n).offset.toNat = n + label.offset.toNat

theorem movesBy_of_mem_items {n : Nat} {t : Text} {found : Findings NativeFunction}
    (hsize : n + size t < 4294967296) (h : functionsIn t = .ok found) :
    ∀ d ∈ found.items, d.span.MovesBy n := by
  intro d hd
  rw [functionsIn, ofText_eq_amid] at h
  obtain ⟨p, hspan, -⟩ :=
    (inOrder_collect_namespaceRound (List.nil_append t).symm h).exists_place d hd
  have hstop := p.stop_le_size
  rw [hspan]
  exact Span.movesBy_between p.start_lt_stop.le (by omega)

theorem exists_movesBy_of_mem_diagnostics {n : Nat} {t : Text} {found : Findings NativeFunction}
    (hsize : n + size t < 4294967296) (h : functionsIn t = .ok found) :
    ∀ d ∈ found.diagnostics, ∃ span, d.span = some span ∧ span.MovesBy n ∧
      ∀ label ∈ d.labels, label.offset = span.start := by
  intro d hd
  obtain ⟨problem, hproblem, rfl⟩ := List.mem_map.mp hd
  obtain ⟨start, stop, -, horder, hstop, hspan⟩ := isPlaced_of_functionsIn h problem hproblem
  exact ⟨_, hspan, Span.movesBy_between horder (by omega), offset_of_mem_labels hspan⟩

/-- Reading is compositional. A text that is read without a problem and leaves no brace open can be
followed by another on a new line: whether that one is read does not change, and what is found is
what the first gives and then what the second gives, moved behind the first. -/
theorem functionsIn_append_newline {t₁ t₂ : Text} {first : Findings NativeFunction}
    (hsize : size t₁ + 1 + size t₂ < 4294967296) (h₁ : functionsIn t₁ = .ok first)
    (hclean : first.diagnostics = []) (hdepth : t₁.foldl braceDepthAfter 0 = 0) :
    Agree (Continues (size t₁ + 1) first) (functionsIn t₂) (functionsIn (t₁ ++ '\n' :: t₂)) := by
  have hproblems : first.problems = [] := List.map_eq_nil_iff.mp hclean
  have hfront : size (t₁ ++ ['\n']) = size t₁ + 1 := size_append t₁ ['\n']
  have hend : separatesWords (t₁ ++ ['\n']).getLast? = true := by
    rw [List.getLast?_concat]
    rfl
  have hagree := agree_collect_namespaceRound_behind hend (.intro [] t₂ [] [])
  have hwhole : functionsIn (t₁ ++ '\n' :: t₂) = do
      return first ++ (← collect namespaceRound (amid (t₁ ++ ['\n'] ++ []) t₂ [])) := by
    rw [functionsIn, ofText_eq_amid] at h₁ ⊢
    rw [collect_namespaceRound_append_newline h₁ hproblems hdepth, List.append_nil]
    rfl
  rw [← ofText_eq_amid, ← functionsIn, hfront] at hagree
  rw [hwhole]
  generalize hsecond : functionsIn t₂ = second at hagree ⊢
  generalize collect namespaceRound (amid (t₁ ++ ['\n'] ++ []) t₂ []) = later at hagree ⊢
  cases hagree with
  | error cut cut' => exact .error cut cut'
  | @ok second later hmoved =>
      have hplaces := exists_movesBy_of_mem_diagnostics hsize hsecond
      refine .ok ⟨?_, ?_, movesBy_of_mem_items hsize hsecond, ?_, ?_⟩
      · rw [Findings.items_append, hmoved.items]
      · rw [← hmoved.diagnostics, Findings.diagnostics, Findings.problems_append, hproblems]
        rfl
      · intro d hd span hspan
        obtain ⟨_, hplace, hmoves, -⟩ := hplaces d hd
        cases hplace.symm.trans hspan
        exact hmoves
      · intro d hd label hlabel
        obtain ⟨span, -, hmoves, hlabels⟩ := hplaces d hd
        have hoffset := hlabels label hlabel
        rw [Label.moved, hoffset]
        exact hmoves.1

/-- The first text starts with a brace that closes nothing, the second has a problem. -/
theorem functionsIn_append_newline_pair :
    let t₁ : Text := "\x7d namespace A \x7b static int F(int *p) \x7b \x7b\x7d \x7d \x7d"
    let t₂ : Text := "spaced namespace B \x7b static void G(void) \x7b\x7d static 9; \x7d \x7d"
    let first : Findings NativeFunction :=
      { items := [⟨"A", "int", "F", [⟨"int*", "p"⟩], ⟨16, 43⟩⟩] }
    size t₁ + 1 + size t₂ < 4294967296 ∧ functionsIn t₁ = .ok first ∧ first.diagnostics = [] ∧
      t₁.foldl braceDepthAfter 0 = 0 ∧
      functionsIn t₂ = .ok ⟨[⟨"B", "void", "G", [], ⟨21, 43⟩⟩], [.notAFunction "B" 44 52]⟩ ∧
      Agree (Continues (size t₁ + 1) first) (functionsIn t₂) (functionsIn (t₁ ++ '\n' :: t₂)) := by
  intro t₁ t₂ first
  have hsize : size t₁ + 1 + size t₂ < 4294967296 := by decide +kernel
  have hfirst : functionsIn t₁ = .ok first := by decide +kernel
  have hdepth : t₁.foldl braceDepthAfter 0 = 0 := by decide +kernel
  exact ⟨hsize, hfirst, rfl, hdepth, by decide +kernel,
    functionsIn_append_newline hsize hfirst rfl hdepth⟩

end HeaderBindings.Header
