import HeaderBindings.Proofs.Header.Written

/-! # Unclosed parameter lists

A parameter list without its closing parenthesis costs one declaration. The search for the
parenthesis runs to the end of the namespace; the run then goes on behind the open parenthesis, at
the next keyword. -/

namespace HeaderBindings.Header

open List Text Cursor

/-- Functions around another text, with white space before it and at the end. -/
def insideAround (first : List (Blanks × WrittenFunction)) (gap : Blanks) (odd : Text)
    (later : List (Blanks × WrittenFunction)) (last : Blanks) : Text :=
  laidOut WrittenFunction.text first ++
    (gap.val ++ (odd ++ (laidOut WrittenFunction.text later ++ last.val)))

theorem balanced_behind_functions (first : List (Blanks × WrittenFunction)) (gap : Blanks)
    {rest : Text} (h : Balanced '{' '}' rest) :
    Balanced '{' '}' (laidOut WrittenFunction.text first ++ (gap.val ++ rest)) :=
  (balanced_laidOut (by decide) (by decide) fun piece _ => piece.2.balanced_text).append
    ((gap.balanced (by decide) (by decide)).append h)

/-! ## Parameter lists -/

namespace WrittenFunction

/-- What is written behind the opening parenthesis if the closing one is missing. -/
def listAndBody (d : WrittenFunction) : Text :=
  d.list ++ (d.space.val ++ '{' :: (d.body ++ ['}']))

/-- The function without the parenthesis that closes its parameter list. -/
def textWithoutParenthesis (d : WrittenFunction) : Text :=
  "static".toList ++ (d.head ++ '(' :: d.listAndBody)

variable {d : WrittenFunction}

theorem not_holdsWord_listAndBody {keyword : Text} (hkeyword : IsName keyword)
    (hlist : ¬ HoldsWord keyword none d.list) (hbody : ¬ HoldsWord keyword none d.body)
    (before? : Option Char) : ¬ HoldsWord keyword before? d.listAndBody := by
  obtain ⟨hne, hchars⟩ := hkeyword
  have hfront : ¬ HoldsWord keyword before? (d.list ++ d.space.val) :=
    not_holdsWord_append hne hchars (fun h => hlist h.of_before) d.space.isNameChar
  have hback : ¬ HoldsWord keyword (some '{') (d.body ++ ['}']) :=
    not_holdsWord_append hne hchars (fun h => hbody h.of_before)
      (List.forall_mem_singleton.mpr (by decide))
  intro h
  rw [listAndBody, ← List.append_assoc] at h
  rcases h.of_append_cons hne hchars (by decide) with h | h
  · exact hfront h
  · exact hback h

theorem separatesWords_listAndBody : separatesWords d.listAndBody.getLast? = true := by
  have htext : d.listAndBody = d.list ++ (d.space.val ++ '{' :: d.body) ++ ['}'] := by
    simp [listAndBody]
  rw [htext, List.getLast?_concat]
  decide

theorem balanced_listAndBody {opening closing : Char} (hopening : isBlank opening = false)
    (hclosing : isBlank closing = false) (hlist : Balanced opening closing d.list)
    (hbody : Balanced opening closing ('{' :: d.body ++ ['}'])) :
    Balanced opening closing d.listAndBody :=
  hlist.append ((d.space.balanced hopening hclosing).append hbody)

theorem balanced_textWithoutParenthesis : Balanced '{' '}' d.textWithoutParenthesis := by
  have hback : Balanced '{' '}' ('(' :: d.listAndBody) :=
    (balanced_listAndBody (by decide) (by decide) d.closed_list
      (d.balanced_body.enclose (by decide))).cons_of_ne (by decide) (by decide)
  unfold textWithoutParenthesis
  rw [← List.append_assoc]
  exact (d.balanced_front (by decide) (by decide)).append hback

/-- The open parenthesis is not closed by the functions that follow, if their parentheses match. -/
theorem neverCloses_listAndBody {later : List (Blanks × WrittenFunction)} (last : Blanks)
    (hlist : ∀ c ∈ d.list, c ∉ ['(', ')', '{', '}']) (hbody : Balanced '(' ')' d.body)
    (hlater : ∀ piece ∈ later, Balanced '(' ')' piece.2.body) :
    NeverCloses '(' ')' (d.listAndBody ++ (laidOut text later ++ last.val)) := by
  have hpart : Balanced '(' ')' d.list := by
    refine balanced_of_forall_ne fun c hc => ?_
    have hmarks := hlist c hc
    simp only [List.mem_cons, List.not_mem_nil, or_false, not_or] at hmarks
    exact ⟨hmarks.1, hmarks.2.1⟩
  have hown : Balanced '(' ')' d.listAndBody :=
    balanced_listAndBody (by decide) (by decide) hpart (hbody.between (by decide) (by decide))
  have hothers : Balanced '(' ')' (laidOut text later) :=
    balanced_laidOut (by decide) (by decide)
      fun piece hpiece => piece.2.balanced_parentheses_text (hlater piece hpiece)
  exact (hown.append (hothers.append (last.balanced (by decide) (by decide)))).neverCloses

end WrittenFunction

section Lists

variable {before rest after : Text} (scope : Text)

theorem exists_functionRound_of_unclosed (b : WrittenFunction) (gap : Blanks)
    (hbefore : separatesWords before.getLast? = true) (hrest : NeverCloses '(' ')' rest)
    {next : Cursor}
    (hnext : recover "static" (size (before ++ (gap.val ++ ("static".toList ++ b.head))))
      (amid (before ++ (gap.val ++ ("static".toList ++ b.head))) ('(' :: rest) after) = .ok next) :
    ∃ offset start stop, functionRound scope
        (amid before (gap.val ++ ("static".toList ++ (b.head ++ '(' :: rest))) after) =
      .ok (.found (.problem (.functionBlock scope b.name (.unterminated '(' offset) start stop))
        next) := by
  have hkeyword := upToWordAt?_gap (by decide) isNameChar_of_mem_static gap.isGap
    (separatesWords_or gap.separatesWords_getLast? hbefore) (b.separatesWords_head_append rest)
  refine ⟨size (before ++ (gap.val ++ ("static".toList ++ b.head))), size before + size gap.val,
    size (before ++ (gap.val ++ ("static".toList ++ b.head))), ?_⟩
  rw [functionRound_of_target scope hkeyword (upToAny_head b.isHead rest)]
  simp only [if_true]
  rw [headRound, signature?_eq_some_of_signature b.signature, ok_bind]
  simp only
  rw [block_amid_of_eq_none (blockInside?_eq_none (by decide) hrest), ok_bind]
  simp only
  rw [pos_amid, hnext]
  rfl

/-- A run over functions of which one does not close its parameter list reports this one and reads
the others. -/
theorem exists_collect_unclosedList (first later : List (Blanks × WrittenFunction)) (gap : Blanks)
    (b : WrittenFunction) (last : Blanks) (after : Text)
    (hbefore : separatesWords before.getLast? = true)
    (hlist : ∀ c ∈ b.list, c ∉ ['(', ')', '{', '}']) (hbody : Balanced '(' ')' b.body)
    (hlistWords : ¬ HoldsWord "static" none b.list) (hbodyWords : ¬ HoldsWord "static" none b.body)
    (hlater : ∀ piece ∈ later, Balanced '(' ')' piece.2.body) :
    ∃ found offset start stop,
      collect (functionRound scope)
        (amid before (insideAround first gap b.textWithoutParenthesis later last) after) =
          .ok found ∧
      found.items.map unplaced = (first ++ later).map (fun piece => piece.2.declared scope) ∧
      found.problems = [.functionBlock scope b.name (.unterminated '(' offset) start stop] := by
  have hreads := WrittenFunction.isReadBy scope
  obtain ⟨front, hfront⟩ : ∃ front, front = before ++ laidOut WrittenFunction.text first :=
    ⟨_, rfl⟩
  have hfrontWords : separatesWords front.getLast? = true := by
    rw [hfront]
    exact hreads.separatesWords_laidOut hbefore first
  obtain ⟨next, tail, hnext, htail, htailItems, htailProblems⟩ := hreads.exists_recover
    (by decide : '('.utf8Size = 1) (by decide)
    (WrittenFunction.not_holdsWord_listAndBody (by decide) hlistWords hbodyWords (some '('))
    WrittenFunction.separatesWords_listAndBody later last
    (front ++ (gap.val ++ ("static".toList ++ b.head))) after
  obtain ⟨offset, start, stop, hround⟩ :=
    exists_functionRound_of_unclosed scope b gap hfrontWords
      (WrittenFunction.neverCloses_listAndBody last hlist hbody hlater) hnext
  rw [hfront] at hround
  obtain ⟨found, hfound, hitems, hproblems⟩ := hreads.exists_collect_around first later hbefore
    hround (remaining_lt_of_functionRound hround) htail htailItems htailProblems
  have htext : insideAround first gap b.textWithoutParenthesis later last =
      laidOut WrittenFunction.text first ++ (gap.val ++ ("static".toList ++ (b.head ++
        '(' :: (b.listAndBody ++ (laidOut WrittenFunction.text later ++ last.val))))) := by
    unfold insideAround WrittenFunction.textWithoutParenthesis
    simp
  refine ⟨found, offset, start, stop, ?_, ?_, hproblems⟩
  · rw [htext]
    exact hfound
  · rw [hitems]
    exact List.map_eq_flatMap.symm

end Lists

theorem message_functionBlock (scope name : Text) (opening : Char) (offset start stop : Nat) :
    (Problem.functionBlock scope name (.unterminated opening offset) start
      stop).diagnostic.message =
        "`" ++ scope ++ "::" ++ name ++ "`" ++ " has an unterminated block" := rfl

theorem functionsIn_of_balanced (o : Opening) (gap behind : Blanks) {inside : Text}
    (hinside : Balanced '{' '}' inside) {found : Findings NativeFunction}
    (hfound : collect (functionRound o.name)
      (amid (gap.val ++ o.text "namespace" ++ ['{']) inside ('}' :: behind.val)) = .ok found) :
    ∃ found', functionsIn
        (gap.val ++ (o.text "namespace" ++ '{' :: (inside ++ '}' :: behind.val))) = .ok found' ∧
      found'.items = found.items ∧ found'.problems = found.problems := by
  have hfound' : collect (functionRound o.name) (amid
      ([] ++ (gap.val ++ o.text "namespace") ++ ['{']) inside ('}' :: (behind.val ++ []))) =
        .ok found := by
    rw [List.nil_append, List.append_nil]
    exact hfound
  have hround := namespaceRound_of_balanced o gap rfl hinside hfound'
  have hlast := collect_of_finished (WrittenScope.isReadBy.finishes behind
    ([] ++ (gap.val ++ (o.text "namespace" ++ '{' :: (inside ++ ['}'])))) [])
  rw [functionsIn, ofText_eq_amid]
  refine ⟨_, collect_of_found hround (remaining_lt_of_namespaceRound hround) hlast, ?_, ?_⟩
  · rw [Findings.items_append, List.append_nil]
  · rw [Findings.problems_append, List.append_nil]

/-- A function that does not close its parameter list is reported, and the other functions of its
namespace are read. -/
theorem exists_functionsIn_unclosedList (o : Opening)
    (first later : List (Blanks × WrittenFunction)) (b : WrittenFunction)
    (lead gap last behind : Blanks)
    (hlist : ∀ c ∈ b.list, c ∉ ['(', ')', '{', '}']) (hbody : Balanced '(' ')' b.body)
    (hlistWords : ¬ HoldsWord "static" none b.list) (hbodyWords : ¬ HoldsWord "static" none b.body)
    (hlater : ∀ piece ∈ later, Balanced '(' ')' piece.2.body) :
    ∃ found report,
      functionsIn (lead.val ++ (o.text "namespace" ++
        '{' :: (insideAround first gap b.textWithoutParenthesis later last ++
          '}' :: behind.val))) = .ok found ∧
      found.items.map unplaced = (first ++ later).map (fun piece => piece.2.declared o.name) ∧
      found.diagnostics = [report] ∧
      report.message =
        "`" ++ (b.declared o.name).qualifiedName ++ "` has an unterminated block" := by
  have hbalanced : Balanced '{' '}' (insideAround first gap b.textWithoutParenthesis later last) :=
    balanced_behind_functions first gap
      (WrittenFunction.balanced_textWithoutParenthesis.append (balanced_functions later last))
  have hbefore : separatesWords (lead.val ++ o.text "namespace" ++ ['{']).getLast? = true := by
    rw [List.getLast?_concat]
    decide
  obtain ⟨inner, offset, start, stop, hinner, hitems, hproblems⟩ :=
    exists_collect_unclosedList o.name first later gap b last ('}' :: behind.val) hbefore hlist
      hbody hlistWords hbodyWords hlater
  obtain ⟨found, hfound, hitems', hproblems'⟩ :=
    functionsIn_of_balanced o lead behind hbalanced hinner
  refine ⟨found, _, hfound, ?_, diagnostics_eq_singleton (hproblems'.trans hproblems), ?_⟩
  · rw [hitems', hitems]
  · simp [message_functionBlock, NativeFunction.qualifiedName, WrittenFunction.declared]

theorem exists_functionsIn_unclosedList_second :
    let o : Opening := ⟨.single, "A", .single, by decide, by decide⟩
    let first := [(Blanks.single, intFunction "F" [] " return ')'; " (by decide))]
    let b := intFunction "B" "int a " " f(\x7b\x7d); " (by decide)
    let later := [(Blanks.single, intFunction "G" "int b" " g(b); \x7b\x7d" (by decide)),
      (Blanks.none, intFunction "H" "void" [] (by decide))]
    (∀ c ∈ b.list, c ∉ ['(', ')', '{', '}']) ∧ Balanced '(' ')' b.body ∧
      ¬ HoldsWord "static" none b.list ∧ ¬ HoldsWord "static" none b.body ∧
      (∀ piece ∈ later, Balanced '(' ')' piece.2.body) ∧
      ∃ found report,
        functionsIn (Blanks.none.val ++ (o.text "namespace" ++
          '{' :: (insideAround first .single b.textWithoutParenthesis later .single ++
            '}' :: Blanks.none.val))) = .ok found ∧
        found.items.map unplaced = (first ++ later).map (fun piece => piece.2.declared o.name) ∧
        found.diagnostics = [report] ∧
        report.message =
          "`" ++ (b.declared o.name).qualifiedName ++ "` has an unterminated block" := by
  intro o first b later
  have hlist : ∀ c ∈ b.list, c ∉ ['(', ')', '{', '}'] :=
    List.all_iff_forall_prop.mp (by decide)
  have hbody : Balanced '(' ')' b.body := by decide
  have hlistWords : ¬ HoldsWord "static" none b.list :=
    (upToWordAt?_eq_none_iff (by decide)).mp (by decide)
  have hbodyWords : ¬ HoldsWord "static" none b.body :=
    (upToWordAt?_eq_none_iff (by decide)).mp (by decide)
  have hlater : ∀ piece ∈ later, Balanced '(' ')' piece.2.body :=
    List.all_iff_forall_prop.mp (by decide)
  exact ⟨hlist, hbody, hlistWords, hbodyWords, hlater,
    exists_functionsIn_unclosedList o first later b .none .single .single .none hlist hbody
      hlistWords hbodyWords hlater⟩

end HeaderBindings.Header
