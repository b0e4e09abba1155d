import HeaderBindings.Proofs.Header.Lockstep

/-! # The layout of a header is irrelevant

Each stage of a round keeps step on two layouts of a text: it ends the same way, what it reads is
the same but for its place, and the cursors it leaves stand at the same point of the two texts. -/

namespace HeaderBindings.Header

open List Text Cursor

/-! ## Related results -/

/-- Cursors at the same point of two layouts of a text. -/
inductive CursorsAgree : Cursor → Cursor → Prop
  | amid {before before' rest rest' : Text} (hbefore : Relaid before before')
      (hrest : Relaid rest rest') (after after' : Text) :
      CursorsAgree (amid before rest after) (amid before' rest' after')

/-- The same functions at other places, and as many problems. -/
structure FindingsAgree (found found' : Findings NativeFunction) : Prop where
  items : found.items.map unplaced = found'.items.map unplaced
  problems : found.problems.length = found'.problems.length

theorem findingsAgree_nil : FindingsAgree {} {} := ⟨rfl, rfl⟩

theorem FindingsAgree.append {a a' b b' : Findings NativeFunction} (ha : FindingsAgree a a')
    (hb : FindingsAgree b b') : FindingsAgree (a ++ b) (a' ++ b') where
  items := by
    rw [Findings.items_append, Findings.items_append, List.map_append, List.map_append, ha.items,
      hb.items]
  problems := by
    rw [Findings.problems_append, Findings.problems_append, List.length_append,
      List.length_append, ha.problems, hb.problems]

/-- Rounds that end the same way on two layouts. -/
abbrev Agreeing : Except BadCut (Round NativeFunction) → Except BadCut (Round NativeFunction) →
    Prop :=
  Agree (RoundsAgree FindingsAgree CursorsAgree)

variable {before before' rest rest' list list' : Text}

theorem agreeing_problem (problem problem' : Problem) {next next' : Cursor}
    (h : CursorsAgree next next') :
    Agreeing (.ok (.found (.problem problem) next)) (.ok (.found (.problem problem') next')) :=
  .ok (.found ⟨rfl, rfl⟩ h)

/-! ## Recovery -/

theorem exists_recover_relaid {keyword : Text} {c : Char} (hc : c.utf8Size = 1)
    (hne : keyword ≠ []) (hkeyword : ∀ c ∈ keyword, isNameChar c = true)
    (hbefore : Relaid before before') (hrest : Relaid rest rest') (after after' : Text) :
    ∃ next next', recover keyword (size before) (amid before (c :: rest) after) = .ok next ∧
      recover keyword (size before') (amid before' (c :: rest') after') = .ok next' ∧
        CursorsAgree next next' := by
  have hfront := hbefore.append (.refl [c])
  have hword : StopAlike keyword rest rest'
      (upToWordAt? keyword sameDepth 0 (before ++ [c]).getLast? rest)
      (upToWordAt? keyword sameDepth 0 (before' ++ [c]).getLast? rest') :=
    upToWordAt?_relaid hne hkeyword (fun _ _ _ => rfl) (separatesWords_relaid hfront).2 hrest 0
  rw [recover, recover, moveTo_amid hc, moveTo_amid hc]
  generalize hsearch : upToWordAt? keyword sameDepth 0 (before ++ [c]).getLast? rest = found,
    hsearch' : upToWordAt? keyword sameDepth 0 (before' ++ [c]).getLast? rest' = found' at hword
  cases hword with
  | none =>
      rw [seekWord_amid_of_eq_none hne hkeyword hsearch,
        seekWord_amid_of_eq_none hne hkeyword hsearch']
      exact ⟨_, _, rfl, rfl, .amid (hfront.append hrest) .nil _ _⟩
  | some htext htext' hpart htail =>
      subst htext htext'
      rw [seekWord_amid_of_eq_some hne hkeyword hsearch,
        seekWord_amid_of_eq_some hne hkeyword hsearch']
      exact ⟨_, _, rfl, rfl, .amid (hfront.append hpart) ((Relaid.refl keyword).append htail) _ _⟩

/-- Rounds that report a problem and recover behind the same mark. -/
theorem agreeing_recover (problem problem' : Problem) {keyword : Text} {c : Char}
    (hc : c.utf8Size = 1) (hne : keyword ≠ []) (hkeyword : ∀ c ∈ keyword, isNameChar c = true)
    (hbefore : Relaid before before') (hrest : Relaid rest rest') (after after' : Text) :
    Agreeing
      (recover keyword (size before) (amid before (c :: rest) after) >>=
        fun next => pure (.found (.problem problem) next))
      (recover keyword (size before') (amid before' (c :: rest') after') >>=
        fun next => pure (.found (.problem problem') next)) := by
  obtain ⟨next, next', hnext, hnext', hagree⟩ :=
    exists_recover_relaid hc hne hkeyword hbefore hrest after after'
  rw [hnext, hnext']
  exact agreeing_problem _ _ hagree

/-! ## Functions -/

theorem agreeing_bodyRound {later later' : Text} (scope result name : Text) (start start' : Nat)
    (hbefore : Relaid before before') (hlist : Relaid list list') (hlater : Relaid later later')
    (after after' : Text) :
    Agreeing
      (bodyRound scope result name start (size before) (size before)
        (size before + '('.utf8Size + size list)
        (amid (before ++ '(' :: (list ++ [')'])) later after))
      (bodyRound scope result name start' (size before') (size before')
        (size before' + '('.utf8Size + size list')
        (amid (before' ++ '(' :: (list' ++ [')'])) later' after')) := by
  obtain ⟨space, tail, space', tail', rfl, rfl, hspace, htail, ⟨hrun, hend⟩, hrun', hend'⟩ :=
    hlater.exists_run_append ignoresLayout_isBlank
  have hfront : Relaid (before ++ '(' :: (list ++ [')']) ++ space)
      (before' ++ '(' :: (list' ++ [')']) ++ space') :=
    (hbefore.append (.char '(' (hlist.append (.refl [')'])))).append hspace
  rw [bodyRound, bodyRound, skipBlanks_amid hrun hend, skipBlanks_amid hrun' hend']
  simp only [ok_bind, peek_amid]
  by_cases hbody : tail.head? = some '{'
  · obtain ⟨left, rfl⟩ := List.head?_eq_some_iff.mp hbody
    obtain ⟨left', rfl, hleft⟩ := htail.exists_of_cons (by decide)
    rw [if_neg (by simp), if_neg (by simp)]
    rcases block_relaid (by decide : '{' ≠ '}') (by decide) (by decide) hleft
        (before ++ '(' :: (list ++ [')']) ++ space) (before' ++ '(' :: (list' ++ [')']) ++ space')
        after after' with
      ⟨hblock, hblock'⟩ | ⟨inside, rest, inside', rest', rfl, rfl, hinside, hrest, hblock, hblock'⟩
    · rw [hblock, hblock']
      exact agreeing_recover _ _ (by decide) (by decide) isNameChar_of_mem_static hfront hleft _ _
    · rw [hblock, hblock']
      simp only [ok_bind]
      rw [slice_list, slice_list, ok_bind, ok_bind, parameters_relaid hlist]
      refine .ok (.found ⟨rfl, rfl⟩ (.amid (hfront.append ?_) hrest _ _))
      exact .char '{' (hinside.append (.refl ['}']))
  · have hbody' : ¬ tail'.head? = some '{' :=
      (htail.head?_eq_some_iff (by decide)).not.mp hbody
    rw [if_pos hbody, if_pos hbody']
    exact agreeing_problem _ _ (.amid hfront htail _ _)

theorem agreeing_headRound {head head' left left' : Text} (scope : Text) (start start' : Nat)
    (hbefore : Relaid before before') (hhead : Relaid head head') (hleft : Relaid left left')
    (after after' : Text) :
    Agreeing (headRound scope head start (amid before ('(' :: left) after))
      (headRound scope head' start' (amid before' ('(' :: left') after')) := by
  rw [headRound, headRound]
  refine (signature?_relaid hhead).bind ?_
  rintro signature _ rfl
  rcases block_relaid (by decide : '(' ≠ ')') (by decide) (by decide) hleft before before' after
      after' with
    ⟨hblock, hblock'⟩ | ⟨list, later, list', later', rfl, rfl, hlist, hlater, hblock, hblock'⟩
  · cases signature <;> simp only <;> rw [hblock, hblock'] <;>
      exact agreeing_recover _ _ (by decide) (by decide) isNameChar_of_mem_static hbefore hleft _ _
  · cases signature with
    | none =>
        simp only
        rw [hblock, hblock']
        refine agreeing_problem _ _ (.amid (hbefore.append ?_) hlater _ _)
        exact .char '(' (hlist.append (.refl [')']))
    | some signature =>
        simp only
        rw [hblock, hblock', ok_bind, ok_bind]
        exact agreeing_bodyRound scope _ _ start start' hbefore hlist hlater after after'

theorem agreeing_strayRound {left left' : Text} {c : Char} (hc : c ∈ headEnds) (scope : Text)
    (start start' : Nat) (hbefore : Relaid before before') (hleft : Relaid left left')
    (after after' : Text) :
    Agreeing (strayRound scope c start (amid before (c :: left) after))
      (strayRound scope c start' (amid before' (c :: left') after')) := by
  have hmoved : ∀ problem problem', Agreeing
      (.ok (.found (.problem problem) ((amid before (c :: left) after).moveTo (size before + 1))))
      (.ok (.found (.problem problem')
        ((amid before' (c :: left') after').moveTo (size before' + 1)))) := by
    intro problem problem'
    rw [moveTo_amid (utf8Size_of_mem_headEnds c hc), moveTo_amid (utf8Size_of_mem_headEnds c hc)]
    exact agreeing_problem _ _ (.amid (hbefore.append (.refl [c])) hleft _ _)
  rw [strayRound, strayRound]
  by_cases hopen : c = '{'
  · subst hopen
    rw [if_pos rfl, if_pos rfl]
    rcases block_relaid (by decide : '{' ≠ '}') (by decide) (by decide) hleft before before' after
        after' with
      ⟨hblock, hblock'⟩ | ⟨inside, rest, inside', rest', rfl, rfl, hinside, hrest, hblock, hblock'⟩
    · rw [hblock, hblock']
      exact hmoved _ _
    · rw [hblock, hblock']
      refine agreeing_problem _ _ (.amid (hbefore.append ?_) hrest _ _)
      exact .char '{' (hinside.append (.refl ['}']))
  · rw [if_neg hopen, if_neg hopen]
    exact hmoved _ _

theorem braceDepthAfter_of_isAsciiBlank (depth : Nat) (c : Char) (h : isAsciiBlank c = true) :
    braceDepthAfter depth c = depth := by
  apply braceDepthAfter_of_ne
  · rintro rfl
    exact absurd h (by decide)
  · rintro rfl
    exact absurd h (by decide)

theorem isAsciiBlank_of_mem_headEnds : ∀ c ∈ headEnds, isAsciiBlank c = false :=
  List.all_iff_forall_prop.mp (by decide)

theorem agreeing_functionRound (scope : Text) {s s' : Cursor} (h : CursorsAgree s s') :
    Agreeing (functionRound scope s) (functionRound scope s') := by
  obtain @⟨before, before', rest, rest', hbefore, hrest, after, after'⟩ := h
  have hword : StopAlike "static" rest rest'
      (upToWordAt? "static" braceDepthAfter 0 before.getLast? rest)
      (upToWordAt? "static" braceDepthAfter 0 before'.getLast? rest') :=
    upToWordAt?_relaid (by decide) isNameChar_of_mem_static braceDepthAfter_of_isAsciiBlank
      (separatesWords_relaid hbefore).2 hrest 0
  generalize hkeyword : upToWordAt? "static" braceDepthAfter 0 before.getLast? rest = found,
    hkeyword' : upToWordAt? "static" braceDepthAfter 0 before'.getLast? rest' = found' at hword
  cases hword with
  | none =>
      rw [functionRound_of_keyword_none scope hkeyword,
        functionRound_of_keyword_none scope hkeyword']
      exact .ok .finished
  | @some gap tail gap' tail' htext htext' hgap htail =>
      subst htext htext'
      rcases upToTarget?_relaid (by decide) (by decide) isAsciiBlank_of_mem_headEnds htail with
        ⟨hnone, hnone'⟩ | ⟨head, head', left, left', c, rfl, rfl, hhead, hleft, htarget, htarget'⟩
      · rw [functionRound_of_target_none scope hkeyword hnone,
          functionRound_of_target_none scope hkeyword' hnone']
        exact .ok .finished
      · have hfront := hbefore.append (hgap.append ((Relaid.refl "static").append hhead))
        rw [functionRound_of_target scope hkeyword htarget,
          functionRound_of_target scope hkeyword' htarget']
        by_cases hparen : c = '('
        · subst hparen
          exact agreeing_headRound scope _ _ hfront hhead hleft after after'
        · simp only [if_neg hparen]
          exact agreeing_strayRound (eq_append_of_upToTarget? htarget).1 scope _ _ hfront hleft _ _

theorem agree_collect_functionRound (scope : Text) {s s' : Cursor} (h : CursorsAgree s s') :
    Agree FindingsAgree (collect (functionRound scope) s) (collect (functionRound scope) s') := by
  apply agree_collect findingsAgree_nil FindingsAgree.append
    (fun s s' => agreeing_functionRound scope) ?_ h
  rintro _ _ ⟨_, _, _, _⟩
  exact ⟨fun _ _ => remaining_lt_of_functionRound, fun _ _ => remaining_lt_of_functionRound⟩

/-! ## Namespace blocks -/

theorem agreeing_scopeRound (scope : Text) (place place' : Span) (hbefore : Relaid before before')
    (hrest : Relaid rest rest') (after after' : Text) :
    Agreeing (scopeRound scope place (amid before rest after))
      (scopeRound scope place' (amid before' rest' after')) := by
  obtain ⟨space, tail, space', tail', rfl, rfl, hspace, htail, ⟨hrun, hend⟩, hrun', hend'⟩ :=
    hrest.exists_run_append ignoresLayout_isBlank
  have hfront := hbefore.append hspace
  rw [scopeRound, scopeRound, skipBlanks_amid hrun hend, skipBlanks_amid hrun' hend', ok_bind,
    ok_bind]
  by_cases hbody : tail.head? = some '{'
  · obtain ⟨left, rfl⟩ := List.head?_eq_some_iff.mp hbody
    obtain ⟨left', rfl, hleft⟩ := htail.exists_of_cons (by decide)
    rcases block_relaid (by decide : '{' ≠ '}') (by decide) (by decide) hleft (before ++ space)
        (before' ++ space') after after' with
      ⟨hblock, hblock'⟩ |
        ⟨inside, left, inside', left', rfl, rfl, hinside, hbehind, hblock, hblock'⟩
    · rw [hblock, hblock']
      exact agreeing_recover _ _ (by decide) (by decide) isNameChar_of_mem_namespace hfront hleft
        _ _
    · rw [hblock, hblock', ok_bind, ok_bind]
      simp only
      rw [inside_amid (by decide), inside_amid (by decide)]
      have hnext : CursorsAgree _ _ :=
        .amid (hfront.append (.char '{' (hinside.append (.refl ['}'])))) hbehind after after'
      have hfound := agree_collect_functionRound scope
        (.amid (hfront.append (.refl ['{'])) hinside ('}' :: (left ++ after))
          ('}' :: (left' ++ after')))
      exact hfound.bind fun _ _ hfound => .ok (.found hfound hnext)
  · have hbody' : ¬ tail'.head? = some '{' :=
      (htail.head?_eq_some_iff (by decide)).not.mp hbody
    rw [block_amid_of_ne hbody, block_amid_of_ne hbody']
    exact agreeing_problem _ _ (.amid hfront htail _ _)

theorem agreeing_namespaceRound {s s' : Cursor} (h : CursorsAgree s s') :
    Agreeing (namespaceRound s) (namespaceRound s') := by
  obtain @⟨before, before', rest, rest', hbefore, hrest, after, after'⟩ := h
  have hword : StopAlike "namespace" rest rest'
      (upToWordAt? "namespace" braceDepthAfter 0 before.getLast? rest)
      (upToWordAt? "namespace" braceDepthAfter 0 before'.getLast? rest') :=
    upToWordAt?_relaid (by decide) isNameChar_of_mem_namespace braceDepthAfter_of_isAsciiBlank
      (separatesWords_relaid hbefore).2 hrest 0
  generalize hkeyword : upToWordAt? "namespace" braceDepthAfter 0 before.getLast? rest = found,
    hkeyword' : upToWordAt? "namespace" braceDepthAfter 0 before'.getLast? rest' = found' at hword
  unfold namespaceRound
  cases hword with
  | none =>
      rw [passKeyword_amid_of_eq_none rfl hkeyword, passKeyword_amid_of_eq_none rfl hkeyword']
      exact .ok .finished
  | @some gap tail gap' tail' htext htext' hgap htail =>
      subst htext htext'
      rw [passKeyword_amid_of_eq_some rfl hkeyword, passKeyword_amid_of_eq_some rfl hkeyword']
      have hfront := (hbefore.append hgap).append (.refl "namespace")
      generalize hpassed : before ++ gap ++ "namespace".toList = front,
        hpassed' : before' ++ gap' ++ "namespace".toList = front' at hfront
      obtain ⟨blanks, tail, blanks', tail', rfl, rfl, hblanks, htail, ⟨hrun, hend⟩, hrun', hend'⟩ :=
        htail.exists_run_append ignoresLayout_isBlank
      simp only [ok_bind]
      rw [skipBlanks_amid hrun hend, skipBlanks_amid hrun' hend', ok_bind, ok_bind]
      have hfront := hfront.append hblanks
      obtain ⟨scope, tail, scope', tail', rfl, rfl, hscope, hbehind, ⟨hname, hstop⟩, hname',
        hstop'⟩ := htail.exists_run_append ignoresLayout_isNameChar
      obtain rfl := hscope.eq_of_forall fun c hc => isAsciiBlank_of_isNameChar (hname c hc)
      by_cases hne : scope = []
      · subst hne
        rw [List.nil_append, List.nil_append, name_amid_of_head? hstop, name_amid_of_head? hstop']
        exact agreeing_problem _ _ (.amid hfront hbehind _ _)
      · rw [name_amid hne hname hstop, name_amid hne hname hstop']
        exact agreeing_scopeRound scope _ _ (hfront.append hscope) hbehind after after'

/-- Two layouts of a text either both make the reading fail, or hold the same functions and equally
many problems. -/
theorem agree_functionsIn {t t' : Text} (h : Relaid t t') :
    Agree FindingsAgree (functionsIn t) (functionsIn t') := by
  rw [functionsIn, functionsIn, ofText_eq_amid, ofText_eq_amid]
  apply agree_collect findingsAgree_nil FindingsAgree.append
    (fun s s' => agreeing_namespaceRound) ?_ (.amid .nil h [] [])
  rintro _ _ ⟨_, _, _, _⟩
  exact ⟨fun _ _ => remaining_lt_of_namespaceRound, fun _ _ => remaining_lt_of_namespaceRound⟩

theorem agree_functionsIn_reflowed :
    let t : Text :=
      "namespace P \x7b static const char *GET(Ped p, int & n) \x7b \x7d static F \x7d"
    let t' : Text :=
      "namespace\tP\n\x7b\n static const\nchar   *GET(Ped\np, int\n& n)\t\x7b\n\x7d\nstatic F\n\x7d"
    Relaid t t' ∧ Agree FindingsAgree (functionsIn t) (functionsIn t') := by
  intro t t'
  have h : Relaid t t' := by decide +kernel
  exact ⟨h, agree_functionsIn h⟩

end HeaderBindings.Header
