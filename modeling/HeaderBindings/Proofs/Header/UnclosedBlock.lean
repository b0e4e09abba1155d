import HeaderBindings.Proofs.Header.UnclosedList

/-! # Unclosed braces

A block of a header without its closing brace costs that block only, whatever is written in it. A
function body without its closing brace costs the whole namespace, since the brace of the namespace
closes the body. -/

namespace HeaderBindings.Header

open List Text Cursor

/-! ## Blocks -/

/-- A block that is never closed. What is written in it holds no further block of its kind. -/
structure UnclosedBlock (keyword : Text) extends Opening where
  inside : Text
  not_holdsWord : ¬ HoldsWord keyword none inside
  separatesWords_inside : separatesWords inside.getLast? = true
  neverCloses : NeverCloses '{' '}' inside

def UnclosedBlock.text {keyword : Text} (b : UnclosedBlock keyword) : Text :=
  b.toOpening.text keyword ++ '{' :: b.inside

theorem message_namespaceBlock (scope : Text) (opening : Char) (offset : Nat) (place : Span) :
    (Problem.namespaceBlock scope (.unterminated opening offset) place).diagnostic.message =
      "namespace `" ++ scope ++ "`" ++ " has an unterminated block" := rfl

/-- A namespace block that is never closed is reported, and all others are read. -/
theorem exists_functionsIn_unclosedScope (first later : List (Blanks × WrittenScope)) (gap : Blanks)
    (b : UnclosedBlock "namespace") (last : Blanks) :
    ∃ found offset place,
      functionsIn (laidOut WrittenScope.text first ++ (gap.val ++ (b.text ++
        (laidOut WrittenScope.text later ++ last.val)))) = .ok found ∧
      found.items.map unplaced = ((first ++ later).flatMap fun piece => piece.2.declared) ∧
      found.problems = [.namespaceBlock b.name (.unterminated '{' offset) place] := by
  have hreads := WrittenScope.isReadBy
  have hfront : separatesWords ([] ++ laidOut WrittenScope.text first).getLast? = true :=
    hreads.separatesWords_laidOut rfl first
  have hrest : NeverCloses '{' '}'
      (b.inside ++ (laidOut WrittenScope.text later ++ last.val)) := by
    have hothers : Balanced '{' '}' (laidOut WrittenScope.text later) :=
      balanced_laidOut (by decide) (by decide) fun piece _ => piece.2.balanced_text
    exact b.neverCloses.append
      (hothers.append (last.balanced (by decide) (by decide))).neverCloses
  obtain ⟨next, tail, hnext, htail, htailItems, htailProblems⟩ := hreads.exists_recover
    (by decide : '{'.utf8Size = 1) (by decide) (fun h => b.not_holdsWord h.of_before)
    b.separatesWords_inside later last
    ([] ++ laidOut WrittenScope.text first ++ (gap.val ++ b.toOpening.text "namespace")) []
  obtain ⟨offset, place, hround⟩ :=
    exists_namespaceRound_of_unclosed b.toOpening gap hfront hrest hnext
  obtain ⟨found, hfound, hitems, hproblems⟩ := hreads.exists_collect_around first later rfl
    hround (remaining_lt_of_namespaceRound hround) htail htailItems htailProblems
  have htext : b.text ++ (laidOut WrittenScope.text later ++ last.val) =
      b.toOpening.text "namespace" ++
        '{' :: (b.inside ++ (laidOut WrittenScope.text later ++ last.val)) := by
    simp [UnclosedBlock.text]
  refine ⟨found, offset, place, ?_, hitems, hproblems⟩
  rw [functionsIn, ofText_eq_amid, htext]
  exact hfound

section Enumerations

variable {before inside after : Text} (o : Opening)

/-- The name before a brace is read, unless it is taken for `class` or `struct`, behind which
there is no name. -/
theorem exists_enumName_opening (before inside after : Text) :
    (∃ place, enumName
        (amid before (o.gap.val ++ (o.name ++ (o.space.val ++ '{' :: inside))) after) =
      .ok (some (o.name, place),
        amid (before ++ o.gap.val ++ o.name) (o.space.val ++ '{' :: inside) after)) ∨
    enumName (amid before (o.gap.val ++ (o.name ++ (o.space.val ++ '{' :: inside))) after) =
      .ok (none, amid (before ++ o.gap.val ++ o.name ++ o.space.val) ('{' :: inside) after) := by
  rw [enumName, skipBlanks_amid o.gap.property (o.isName.isBlank_of_mem_head?_append _), ok_bind,
    name_amid o.isName.ne_nil o.isName.isNameChar (o.isNameChar_of_mem_head?_space inside), ok_bind]
  simp only
  split
  next hkey =>
    right
    rw [skipBlanks_amid o.space.property (isBlank_of_mem_head?_brace inside), ok_bind,
      name_amid_of_head? (by rintro c ⟨⟩; decide)]
  next hkey => exact .inl ⟨_, rfl⟩

/-- A round over an enumeration that is never closed reports it, and leaves the cursor before or
behind the brace. -/
theorem exists_enumRound_of_unclosed (gap : Blanks)
    (hbefore : separatesWords before.getLast? = true) (hinside : NeverCloses '{' '}' inside)
    (after : Text) :
    ∃ problem mark left, '{' :: inside = mark ++ left ∧ (mark = [] ∨ mark = ['{']) ∧
      enumRound (amid before (gap.val ++ (o.text "enum" ++ '{' :: inside)) after) =
        .ok (.found (.problem problem)
          (amid (before ++ (gap.val ++ (o.text "enum" ++ mark))) left after)) := by
  have hgap : ¬ HoldsWord "enum" before.getLast? gap.val :=
    not_holdsWord_of_forall (by decide) isNameChar_of_mem_enum gap.isNameChar
  have hfound := upToWordAt?_eq_some (by decide) isNameChar_of_mem_enum
    (fun d _ => (rfl : sameDepth 0 d = 0)) hgap
    (separatesWords_or gap.separatesWords_getLast? hbefore)
    (o.separatesWords_gap_append (o.name ++ (o.space.val ++ '{' :: inside)))
  have hfront : before ++ gap.val ++ "enum".toList ++ o.gap.val ++ o.name ++ o.space.val =
      before ++ (gap.val ++ (o.text "enum" ++ [])) := by
    simp [Opening.text]
  have hclause : upToTarget? ['{', ';'] 0 (o.space.val ++ '{' :: inside) =
      some (o.space.val, '{') :=
    upToTarget?_append (by decide)
      (fun d hd => not_mem_marks (.inr (.inl (o.space.property d hd)))) inside
  rw [enumRound, o.text_append, passWord_amid_of_eq_some (by decide) isNameChar_of_mem_enum hfound,
    ok_bind]
  simp only
  rcases exists_enumName_opening o (before ++ gap.val ++ "enum".toList) inside after with
    ⟨place, hname⟩ | hname
  · rw [hname, ok_bind]
    simp only
    rw [upToAny_amid hclause, ok_bind, hfront]
    simp only
    rw [block_amid_of_eq_none (blockInside?_eq_none (by decide) hinside), ok_bind]
    simp only
    rw [pos_amid, moveTo_amid (by decide)]
    simp only [List.append_assoc, List.nil_append]
    exact ⟨_, ['{'], inside, rfl, .inr rfl, rfl⟩
  · rw [hname, ok_bind, hfront]
    exact ⟨_, [], '{' :: inside, rfl, .inl rfl, rfl⟩

end Enumerations

theorem UnclosedBlock.not_holdsWord_cons {keyword : Text} (hkeyword : IsName keyword)
    (b : UnclosedBlock keyword) : ¬ HoldsWord keyword none ('{' :: b.inside) := by
  obtain ⟨hne, hchars⟩ := hkeyword
  intro h
  rcases HoldsWord.of_append_cons (s := []) hne hchars (by decide) h with h | h
  · exact not_holdsWord_of_forall hne hchars (List.forall_mem_nil _) h
  · exact b.not_holdsWord h.of_before

/-- An enumeration that is never closed is reported, and all others are read. -/
theorem exists_enumsIn_unclosedEnum (first later : List (Blanks × EnumText)) (gap : Blanks)
    (b : UnclosedBlock "enum") (last : Blanks) :
    ∃ found problem,
      enumsIn (laidOut EnumText.text first ++ (gap.val ++ (b.text ++
        (laidOut EnumText.text later ++ last.val)))) = .ok found ∧
      found.items.map unplacedBlock = (first ++ later).map (fun piece => piece.2.declared) ∧
      found.problems = [problem] := by
  have hreads := EnumText.isReadBy
  have hfront : separatesWords ([] ++ laidOut EnumText.text first).getLast? = true :=
    hreads.separatesWords_laidOut rfl first
  have hrest : NeverCloses '{' '}' (b.inside ++ (laidOut EnumText.text later ++ last.val)) := by
    have hothers : Balanced '{' '}' (laidOut EnumText.text later) :=
      balanced_laidOut (by decide) (by decide) fun piece _ => piece.2.balanced_text
    exact b.neverCloses.append
      (hothers.append (last.balanced (by decide) (by decide))).neverCloses
  obtain ⟨problem, mark, left, hleft, hmark, hround⟩ :=
    exists_enumRound_of_unclosed b.toOpening gap hfront hrest []
  obtain ⟨filler, hfiller, hbrace, rfl⟩ : ∃ filler, ¬ HoldsWord "enum" none filler ∧
      mark ++ filler = '{' :: b.inside ∧
      left = filler ++ (laidOut EnumText.text later ++ last.val) := by
    rcases hmark with rfl | rfl
    · exact ⟨'{' :: b.inside, b.not_holdsWord_cons (by decide), rfl, hleft.symm⟩
    · exact ⟨b.inside, b.not_holdsWord, rfl, (List.cons.inj hleft).2.symm⟩
  have hpassed : separatesWords ([] ++ laidOut EnumText.text first ++
      (gap.val ++ (b.toOpening.text "enum" ++ mark)) ++ filler).getLast? = true := by
    have hsplit : [] ++ laidOut EnumText.text first ++
        (gap.val ++ (b.toOpening.text "enum" ++ mark)) ++ filler =
          laidOut EnumText.text first ++ (gap.val ++ b.toOpening.text "enum") ++ ['{'] ++
            b.inside := by
      simp [hbrace]
    rw [hsplit]
    refine separatesWords_getLast?_append ?_ b.separatesWords_inside
    rw [List.getLast?_concat]
    decide
  obtain ⟨tail, htail, htailItems, htailProblems⟩ :=
    EnumText.exists_collect_behind hfiller hpassed later last []
  obtain ⟨found, hfound, hitems, hproblems⟩ := hreads.exists_collect_around first later rfl
    hround (remaining_amid_lt (by rw [hleft]; simp) (by simp [Opening.text])) htail htailItems
    htailProblems
  have htext : b.text ++ (laidOut EnumText.text later ++ last.val) =
      b.toOpening.text "enum" ++
        '{' :: (b.inside ++ (laidOut EnumText.text later ++ last.val)) := by
    simp [UnclosedBlock.text]
  refine ⟨found, problem, ?_, ?_, hproblems⟩
  · rw [enumsIn, ofText_eq_amid, htext]
    exact hfound
  · rw [hitems]
    exact List.map_eq_flatMap.symm

/-- A block of a header that is never closed costs no more than itself: it is reported, and all
well-formed blocks before and behind it are read. -/
theorem exists_report_of_unclosedBlock :
    (∀ (first later : List (Blanks × WrittenScope)) (gap : Blanks) (b : UnclosedBlock "namespace")
        (last : Blanks), ∃ found report,
      functionsIn (laidOut WrittenScope.text first ++ (gap.val ++ (b.text ++
        (laidOut WrittenScope.text later ++ last.val)))) = .ok found ∧
      found.items.map unplaced = ((first ++ later).flatMap fun piece => piece.2.declared) ∧
      found.diagnostics = [report]) ∧
    ∀ (first later : List (Blanks × EnumText)) (gap : Blanks) (b : UnclosedBlock "enum")
        (last : Blanks), ∃ found report,
      enumsIn (laidOut EnumText.text first ++ (gap.val ++ (b.text ++
        (laidOut EnumText.text later ++ last.val)))) = .ok found ∧
      found.items.map unplacedBlock = (first ++ later).map (fun piece => piece.2.declared) ∧
      found.diagnostics = [report] := by
  constructor
  · intro first later gap b last
    obtain ⟨found, offset, place, hfound, hitems, hproblems⟩ :=
      exists_functionsIn_unclosedScope first later gap b last
    exact ⟨found, _, hfound, hitems, diagnostics_eq_singleton hproblems⟩
  · intro first later gap b last
    obtain ⟨found, problem, hfound, hitems, hproblems⟩ :=
      exists_enumsIn_unclosedEnum first later gap b last
    exact ⟨found, _, hfound, hitems, diagnostics_eq_singleton hproblems⟩

/-- What is written in the unclosed blocks may open brackets of all kinds. -/
theorem exists_report_of_unclosedBlock_open :
    let scopes : Text := "namespace A \x7bstatic int F() \x7breturn 0;\x7d\x7d" ++
      " namespace B \x7bstatic int G(; \x7b namespace C \x7bstatic int H(int a) \x7b\x7d\x7d"
    let enums : Text := modeText.text ++ " enum State \x7b ON = f(\x7b; " ++ modeText.text
    (∃ found report, functionsIn scopes = .ok found ∧
      found.items.map unplaced =
        [⟨"A", "int", "F", [], ⟨0, 0⟩⟩, ⟨"C", "int", "H", [⟨"int", "a"⟩], ⟨0, 0⟩⟩] ∧
      found.diagnostics = [report]) ∧
    ∃ found report, enumsIn enums = .ok found ∧
      found.items.map unplacedBlock = [modeText.declared, modeText.declared] ∧
      found.diagnostics = [report] := by
  intro scopes enums
  obtain ⟨hscopes, henums⟩ := exists_report_of_unclosedBlock
  let scope (name : Text) (d : WrittenFunction) (h : IsName name) : Blanks × WrittenScope :=
    (.none, ⟨⟨.single, name, .single, by decide, h⟩, [(.none, d)], .none⟩)
  constructor
  · let b : UnclosedBlock "namespace" :=
      ⟨⟨.single, "B", .single, by decide, by decide⟩, "static int G(; \x7b ",
        (upToWordAt?_eq_none_iff (by decide)).mp (by decide), by decide, by decide⟩
    exact hscopes [scope "A" (intFunction "F" [] "return 0;" (by decide)) (by decide)]
      [scope "C" (intFunction "H" "int a" [] (by decide)) (by decide)] .single b .none
  · let b : UnclosedBlock "enum" :=
      ⟨⟨.single, "State", .single, by decide, by decide⟩, " ON = f(\x7b; ",
        (upToWordAt?_eq_none_iff (by decide)).mp (by decide), by decide, by decide⟩
    exact henums [(.none, modeText)] [(.none, modeText)] .single b .none

/-! ## Bodies -/

namespace WrittenFunction

/-- The function without the brace that closes its body. -/
def textWithoutBrace (d : WrittenFunction) : Text :=
  "static".toList ++ (d.head ++ '(' :: (d.list ++ ')' :: (d.space.val ++ '{' :: d.body)))

/-- The next closing brace closes the body in the place of the one that is missing. -/
theorem balanced_textWithoutBrace (d : WrittenFunction) {rest : Text}
    (hrest : Balanced '{' '}' rest) : Balanced '{' '}' (d.textWithoutBrace ++ rest ++ ['}']) := by
  have htext : d.textWithoutBrace ++ rest ++ ['}'] =
      text { d with
        body := d.body ++ rest
        balanced_body := d.balanced_body.append hrest } := by
    unfold text functionText textWithoutBrace
    simp
  rw [htext]
  exact balanced_text _

end WrittenFunction

/-- A namespace block in which a function does not close its body, up to the brace that was to close
the namespace. -/
def unclosedScope (o : Opening) (first : List (Blanks × WrittenFunction)) (gap : Blanks)
    (b : WrittenFunction) (later : List (Blanks × WrittenFunction)) (last : Blanks)
    (hwords : ¬ HoldsWord "namespace" none (insideAround first gap b.textWithoutBrace later last)) :
    UnclosedBlock "namespace" where
  toOpening := o
  inside := insideAround first gap b.textWithoutBrace later last ++ ['}']
  not_holdsWord := not_holdsWord_append (by decide) isNameChar_of_mem_namespace hwords
    (List.forall_mem_singleton.mpr (by decide))
  separatesWords_inside := by
    rw [List.getLast?_concat]
    decide
  neverCloses := by
    have htext : insideAround first gap b.textWithoutBrace later last ++ ['}'] =
        laidOut WrittenFunction.text first ++ (gap.val ++ (b.textWithoutBrace ++
          (laidOut WrittenFunction.text later ++ last.val) ++ ['}'])) := by
      simp [insideAround]
    rw [htext]
    exact (balanced_behind_functions first gap
      (b.balanced_textWithoutBrace (balanced_functions later last))).neverCloses

/-- A function that does not close its body takes the brace of its namespace, so the namespace is
reported and none of its functions is read. The other namespaces are. -/
theorem exists_functionsIn_unclosedBody (before behind : List (Blanks × WrittenScope))
    (o : Opening) (first later : List (Blanks × WrittenFunction)) (b : WrittenFunction)
    (lead gap last ending : Blanks)
    (hwords : ¬ HoldsWord "namespace" none
      (insideAround first gap b.textWithoutBrace later last)) :
    ∃ found report,
      functionsIn (laidOut WrittenScope.text before ++ (lead.val ++ (o.text "namespace" ++
        '{' :: (insideAround first gap b.textWithoutBrace later last ++
          '}' :: (laidOut WrittenScope.text behind ++ ending.val))))) = .ok found ∧
      found.items.map unplaced = ((before ++ behind).flatMap fun piece => piece.2.declared) ∧
      found.diagnostics = [report] ∧
      report.message = "namespace `" ++ o.name ++ "` has an unterminated block" := by
  obtain ⟨found, offset, place, hfound, hitems, hproblems⟩ :=
    exists_functionsIn_unclosedScope before behind lead
      (unclosedScope o first gap b later last hwords) ending
  have htext : (unclosedScope o first gap b later last hwords).text ++
      (laidOut WrittenScope.text behind ++ ending.val) =
        o.text "namespace" ++ '{' :: (insideAround first gap b.textWithoutBrace later last ++
          '}' :: (laidOut WrittenScope.text behind ++ ending.val)) := by
    simp [unclosedScope, UnclosedBlock.text]
  rw [htext] at hfound
  refine ⟨found, _, hfound, hitems, diagnostics_eq_singleton hproblems, ?_⟩
  simp [message_namespaceBlock, unclosedScope]

theorem exists_functionsIn_unclosedBody_first :
    let o : Opening := ⟨.single, "A", .single, by decide, by decide⟩
    let b := intFunction "F" [] " return 0;" (by decide)
    let later := [(Blanks.single, intFunction "G" [] " return 1; " (by decide))]
    let behind : List (Blanks × WrittenScope) := [(.single,
      ⟨⟨.single, "B", .none, by decide, by decide⟩,
        [(.none, intFunction "H" "int a" [] (by decide))], .none⟩)]
    ¬ HoldsWord "namespace" none (insideAround [] .single b.textWithoutBrace later .single) ∧
      ∃ found report,
        functionsIn (laidOut WrittenScope.text [] ++ (Blanks.none.val ++ (o.text "namespace" ++
          '{' :: (insideAround [] .single b.textWithoutBrace later .single ++
            '}' :: (laidOut WrittenScope.text behind ++ Blanks.none.val))))) = .ok found ∧
        found.items.map unplaced =
          (([] ++ behind : List (Blanks × WrittenScope)).flatMap fun piece => piece.2.declared) ∧
        found.diagnostics = [report] ∧
        report.message = "namespace `" ++ o.name ++ "` has an unterminated block" := by
  intro o b later behind
  have hwords : ¬ HoldsWord "namespace" none
      (insideAround [] .single b.textWithoutBrace later .single) :=
    (upToWordAt?_eq_none_iff (by decide)).mp (by decide)
  exact ⟨hwords,
    exists_functionsIn_unclosedBody [] behind o [] later b .none .single .single .none hwords⟩

/-- An unclosed body costs more than its function: in `namespace A { static int F() { return 0;
static int G() { return 1; } }` the function `G` is not read either. -/
theorem not_forall_mem_of_unclosedBody :
    ¬ ∀ (o : Opening) (first later : List (Blanks × WrittenFunction)) (b : WrittenFunction)
        (gap last : Blanks), ¬ HoldsWord "static" none b.body →
      ∃ found,
        functionsIn (o.text "namespace" ++
          '{' :: (insideAround first gap b.textWithoutBrace later last ++ ['}'])) = .ok found ∧
        found.problems ≠ [] ∧
        ∀ piece ∈ later, piece.2.declared o.name ∈ found.items.map unplaced := by
  intro h
  let o : Opening := ⟨.single, "A", .single, by decide, by decide⟩
  let b := intFunction "F" [] " return 0;" (by decide)
  let later := [(Blanks.single, intFunction "G" [] " return 1; " (by decide))]
  have hword : ¬ HoldsWord "static" none b.body :=
    (upToWordAt?_eq_none_iff (by decide)).mp (by decide)
  have hread : functionsIn (o.text "namespace" ++
      '{' :: (insideAround [] .single b.textWithoutBrace later .single ++ ['}'])) =
        .ok { problems := [.namespaceBlock "A" (.unterminated '{' 12) ⟨10, 11⟩] } := by
    decide +kernel
  obtain ⟨found, hfound, -, hlater⟩ := h o [] later b .single .single hword
  rw [hread] at hfound
  cases hfound
  cases hlater _ List.mem_cons_self

/-! ## Reports of bodies -/

/-- In the range of a round over functions every brace that is opened is closed, because the braces
of its namespace match. -/
def InsideBraces (s : Cursor) : Prop :=
  ∃ before front left after, s = amid before left after ∧ Balanced '{' '}' (front ++ left)

theorem not_isUnclosedBody_of_functionRound {scope : Text} {s next : Cursor}
    {batch : Findings NativeFunction} (hs : InsideBraces s)
    (h : functionRound scope s = .ok (.found batch next)) :
    next.remaining < s.remaining ∧ InsideBraces next ∧
      ∀ problem ∈ batch.problems, ¬ IsUnclosedBody problem := by
  obtain ⟨before, front, rest, after, rfl, hbraces⟩ := hs
  refine ⟨remaining_lt_of_functionRound h, ?_, ?_⟩
  · obtain ⟨part, left, rfl, -, rfl⟩ := exists_next_of_functionRound h
    exact ⟨before ++ part, front ++ part, left, after, rfl, by simpa using hbraces⟩
  · have houtcome := functionRound_outcome scope before rest after
    rw [h] at houtcome
    cases houtcome with
    | reported problem hrest hpart hbody =>
        refine List.forall_mem_singleton.mpr fun hproblem => ?_
        obtain ⟨part, later, rfl, hnone⟩ := hbody hproblem
        rw [← List.append_assoc] at hbraces
        exact hbraces.blockInside?_ne_none (by decide) hnone
    | read => exact List.forall_mem_nil _

theorem not_isUnclosedBody_of_collect {scope : Text} {s : Cursor}
    {found : Findings NativeFunction} (hs : InsideBraces s)
    (h : collect (functionRound scope) s = .ok found) :
    ∀ problem ∈ found.problems, ¬ IsUnclosedBody problem := by
  refine collect_induction InsideBraces
    (motive := fun _ found => ∀ problem ∈ found.problems, ¬ IsUnclosedBody problem) ?_ ?_ hs h
  · intro s hs hround
    exact List.forall_mem_nil _
  · intro s batch next hs hround
    obtain ⟨hforward, hnext, hbatch⟩ := not_isUnclosedBody_of_functionRound hs hround
    exact ⟨hforward, hnext, fun later hlater => List.forall_mem_append.mpr ⟨hbatch, hlater⟩⟩

/-- No text at all leads to the report that the body of a function is not closed. -/
theorem not_isUnclosedBody_of_functionsIn {t : Text} {found : Findings NativeFunction}
    (h : functionsIn t = .ok found) : ∀ problem ∈ found.problems, ¬ IsUnclosedBody problem := by
  rw [functionsIn, ofText_eq_amid] at h
  refine collect_induction (fun s => ∃ before rest, s = amid before rest [])
    (motive := fun _ found => ∀ problem ∈ found.problems, ¬ IsUnclosedBody problem) ?_ ?_
    ⟨[], t, rfl⟩ h
  · intro s hs hround
    exact List.forall_mem_nil _
  · rintro _ batch next ⟨before, rest, rfl⟩ hround
    have hbatch : ∀ problem ∈ batch.problems, ¬ IsUnclosedBody problem := by
      have houtcome := namespaceRound_outcome before rest []
      rw [hround] at houtcome
      cases houtcome with
      | reported problem hrest hpart hscope =>
          exact List.forall_mem_singleton.mpr (not_isUnclosedBody_of_keyword? hscope)
      | @read part inside left scope _ hrest hpart hinside hfound =>
          exact not_isUnclosedBody_of_collect ⟨_, [], inside, _, rfl, hinside⟩ hfound
    obtain ⟨part, left, -, -, hnext⟩ := exists_next_of_namespaceRound hround
    exact ⟨remaining_lt_of_namespaceRound hround, ⟨before ++ part, left, hnext⟩,
      fun later hlater => List.forall_mem_append.mpr ⟨hbatch, hlater⟩⟩

end HeaderBindings.Header
