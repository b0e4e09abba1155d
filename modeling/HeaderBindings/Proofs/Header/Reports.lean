import HeaderBindings.Proofs.Header.EnumRounds
import HeaderBindings.Proofs.Header.Outcomes
import HeaderBindings.Proofs.Header.OutsideComments

/-! # Where problems are reported

Every problem is reported at a range of the text. The range starts at a keyword, at a name or at an
opening brace, so never at a blank. -/

namespace HeaderBindings.Header

open List Text Cursor

/-! ## Places -/

/-- A character that is not blank stands at an offset. -/
def IsMark (t : Text) (offset : Nat) : Prop :=
  ∃ before c behind, t = before ++ c :: behind ∧ size before = offset ∧ isBlank c = false

/-- A problem is reported at a range of the text that starts at a mark. -/
def IsPlaced (t : Text) (problem : Problem) : Prop :=
  ∃ start stop, IsMark t start ∧ start ≤ stop ∧ stop ≤ size t ∧
    problem.diagnostic.span = some (.between start stop)

theorem isMark_of_name {word : Text} (hne : word ≠ []) (hword : ∀ c ∈ word, isNameChar c = true)
    (before behind : Text) :
    IsMark (before ++ (word ++ behind)) (size before) := by
  obtain ⟨c, word, rfl⟩ := List.exists_cons_of_ne_nil hne
  exact ⟨before, c, word ++ behind, rfl, rfl, isBlank_of_isNameChar (hword c List.mem_cons_self)⟩

/-- Everything that a round reports is placed in the text. -/
def Places {α : Type} (t : Text) (outcome : Except BadCut (Round α)) : Prop :=
  ∀ batch next, outcome = .ok (.found batch next) → ∀ problem ∈ batch.problems, IsPlaced t problem

section

variable {α : Type} {t : Text} {problem : Problem} {next : Cursor}

theorem places_finished : Places t (.ok .finished : Except BadCut (Round α)) := by
  intro batch next h
  cases h

theorem places_item (a : α) (next : Cursor) : Places t (.ok (.found (.item a) next)) := by
  rintro _ _ ⟨⟩ problem hproblem
  exact absurd hproblem List.not_mem_nil

theorem IsPlaced.places (h : IsPlaced t problem) (next : Cursor) :
    Places t (.ok (.found (.problem problem) next) : Except BadCut (Round α)) := by
  rintro _ _ ⟨⟩ reported hreported
  obtain rfl := List.mem_singleton.mp hreported
  exact h

theorem Places.bind {β : Type} {x : Except BadCut β} {round : β → Except BadCut (Round α)}
    (h : ∀ b, x = .ok b → Places t (round b)) : Places t (x >>= round) := by
  intro batch next hround
  obtain ⟨b, hb, hround⟩ := bind_eq_ok_iff.mp hround
  exact h b hb batch next hround

theorem isPlaced_of_collect {round : Cursor → Except BadCut (Round α)}
    (hplaces : ∀ before rest after,
      Places (before ++ rest ++ after) (round (amid before rest after)))
    (hnext : ∀ {before rest after batch next},
      round (amid before rest after) = .ok (.found batch next) →
        ∃ part left, rest = part ++ left ∧ part ≠ [] ∧ next = amid (before ++ part) left after)
    {before rest after : Text} {found : Findings α}
    (h : collect round (amid before rest after) = .ok found) :
    ∀ problem ∈ found.problems, IsPlaced (before ++ rest ++ after) problem := by
  refine collect_induction
    (motive := fun _ found =>
      ∀ problem ∈ found.problems, IsPlaced (before ++ rest ++ after) problem)
    (fun s => ∃ front left behind, s = amid front left behind ∧
      front ++ left ++ behind = before ++ rest ++ after) ?_ ?_ ⟨before, rest, after, rfl, rfl⟩ h
  · exact fun _ _ _ problem hproblem => absurd hproblem List.not_mem_nil
  · rintro _ batch next ⟨front, left, behind, rfl, htext⟩ hround
    obtain ⟨part, left, rfl, hpart, rfl⟩ := hnext hround
    refine ⟨remaining_amid_lt rfl hpart, ⟨_, _, _, rfl, by simpa using htext⟩, ?_⟩
    intro later hlater problem hproblem
    rcases List.mem_append.mp hproblem with hproblem | hproblem
    · exact htext ▸ hplaces front (part ++ left) behind batch _ hround problem hproblem
    · exact hlater problem hproblem

end

/-! ## Functions -/

section

variable {scope before rest after : Text} {start : Nat}

theorem places_bodyRound {result name : Text} {paren : Nat} (opening closing : Nat)
    (hmark : IsMark (before ++ rest ++ after) start) (hparen : start ≤ paren)
    (hbefore : paren ≤ size before) :
    Places (before ++ rest ++ after)
      (bodyRound scope result name start paren opening closing (amid before rest after)) := by
  obtain ⟨space, tail, rfl, hspace, htail⟩ := exists_run_append isBlank rest
  rw [bodyRound, skipBlanks_amid hspace htail, ok_bind, peek_amid, ok_bind]
  split
  · refine IsPlaced.places ⟨start, size (before ++ space), hmark, ?_, ?_, rfl⟩ _ <;>
      simp only [size_append] <;> omega
  · refine Places.bind fun found _ => ?_
    obtain ⟨found, next⟩ := found
    cases found with
    | error cause =>
        refine Places.bind fun next _ => ?_
        refine IsPlaced.places ⟨start, paren, hmark, hparen, ?_, rfl⟩ _
        simp only [size_append]
        omega
    | ok range => exact Places.bind fun list _ => places_item _ _

theorem places_headRound (head : Text) (hmark : IsMark (before ++ '(' :: rest ++ after) start)
    (hstart : start ≤ size before) :
    Places (before ++ '(' :: rest ++ after)
      (headRound scope head start (amid before ('(' :: rest) after)) := by
  have hstop : size before ≤ size (before ++ '(' :: rest ++ after) := by
    simp only [size_append]
    omega
  refine Places.bind fun signature _ => ?_
  cases signature with
  | none =>
      refine Places.bind fun found _ => ?_
      have hplaced : IsPlaced (before ++ '(' :: rest ++ after)
          (.malformedHead scope head start (size before)) :=
        ⟨start, size before, hmark, hstart, hstop, rfl⟩
      obtain ⟨found, next⟩ := found
      cases found with
      | error cause => exact Places.bind fun next _ => hplaced.places next
      | ok range => exact hplaced.places next
  | some signature =>
      simp only
      rcases block_amid_cases (by decide : '(' ≠ ')') before rest after with
        ⟨-, hblock⟩ | ⟨list, later, rfl, -, hblock⟩
      · rw [hblock, ok_bind]
        exact Places.bind fun next _ =>
          IsPlaced.places ⟨start, size before, hmark, hstart, hstop, rfl⟩ next
      · have htext : before ++ '(' :: (list ++ ')' :: later) ++ after =
            before ++ '(' :: (list ++ [')']) ++ later ++ after := by simp
        rw [hblock, ok_bind]
        rw [htext] at hmark ⊢
        refine places_bodyRound _ _ hmark hstart ?_
        rw [pos_amid, size_append]
        exact Nat.le_add_right _ _

theorem places_strayRound {c : Char} (hmark : IsMark (before ++ c :: rest ++ after) start)
    (hstart : start ≤ size before) :
    Places (before ++ c :: rest ++ after)
      (strayRound scope c start (amid before (c :: rest) after)) := by
  have hplaced : IsPlaced (before ++ c :: rest ++ after)
      (.notAFunction scope start (size before)) := by
    refine ⟨start, size before, hmark, hstart, ?_, rfl⟩
    simp only [size_append]
    omega
  rw [strayRound]
  split
  · refine Places.bind fun found _ => ?_
    obtain ⟨found, next⟩ := found
    cases found <;> exact hplaced.places _
  · exact hplaced.places _

theorem places_functionRound (scope before rest after : Text) :
    Places (before ++ rest ++ after) (functionRound scope (amid before rest after)) := by
  cases hkeyword : upToWordAt? "static".toList braceDepthAfter 0 before.getLast? rest with
  | none =>
      rw [functionRound_of_keyword_none scope hkeyword]
      exact places_finished
  | some gap =>
      obtain ⟨tail, rfl, -, -⟩ := eq_append_of_upToWordAt? hkeyword
      cases htarget : upToTarget? headEnds 0 tail with
      | none =>
          rw [functionRound_of_target_none scope hkeyword htarget]
          exact places_finished
      | some found =>
          obtain ⟨head, c⟩ := found
          obtain ⟨hc, left, rfl⟩ := eq_append_of_upToTarget? htarget
          rw [functionRound_of_target scope hkeyword htarget]
          have htext : before ++ (gap ++ ("static".toList ++ (head ++ c :: left))) ++ after =
              before ++ (gap ++ ("static".toList ++ head)) ++ c :: left ++ after := by simp
          have hmark : IsMark (before ++ (gap ++ ("static".toList ++ head)) ++ c :: left ++ after)
              (size before + size gap) := by
            have hname := isMark_of_name (by decide) isNameChar_of_mem_static (before ++ gap)
              (head ++ (c :: left ++ after))
            rw [size_append] at hname
            simpa using hname
          have hstart : size before + size gap ≤
              size (before ++ (gap ++ ("static".toList ++ head))) := by
            simp only [size_append]
            omega
          rw [htext]
          simp only
          split
          next hparen =>
            subst hparen
            exact places_headRound head hmark hstart
          next => exact places_strayRound hmark hstart

end

/-! ## Namespace blocks -/

section

variable {scope before rest after : Text}

theorem places_scopeRound (hne : scope ≠ []) (hscope : ∀ c ∈ scope, isNameChar c = true) :
    Places (before ++ scope ++ rest ++ after)
      (scopeRound scope (.between (size before) (size before + size scope))
        (amid (before ++ scope) rest after)) := by
  obtain ⟨space, tail, rfl, hspace, htail⟩ := exists_run_append isBlank rest
  have hplaced : ∀ cause, IsPlaced (before ++ scope ++ (space ++ tail) ++ after)
      (.namespaceBlock scope cause (.between (size before) (size before + size scope))) := by
    intro cause
    refine ⟨size before, size before + size scope, ?_, Nat.le_add_right _ _, ?_, rfl⟩
    · simpa using isMark_of_name hne hscope before (space ++ tail ++ after)
    · simp only [size_append]
      omega
  by_cases hbody : tail.head? = some '{'
  · obtain ⟨left, rfl⟩ := List.head?_eq_some_iff.mp hbody
    cases hblock : blockInside? '{' '}' 0 left with
    | none =>
        rw [scopeRound_of_unclosed hspace hblock]
        exact Places.bind fun next _ => (hplaced _).places next
    | some inside =>
        obtain ⟨⟨left, rfl⟩, hinside⟩ := balanced_of_blockInside? (by decide) hblock
        rw [scopeRound_of_balanced hspace hinside]
        refine Places.bind fun found hfound => ?_
        rintro _ _ ⟨⟩
        simpa using isPlaced_of_collect (places_functionRound scope) exists_next_of_functionRound
          hfound
  · rw [scopeRound_of_ne hspace htail hbody]
    exact (hplaced _).places _

theorem places_namespaceRound (before rest after : Text) :
    Places (before ++ rest ++ after) (namespaceRound (amid before rest after)) := by
  cases hkeyword : upToWordAt? "namespace" braceDepthAfter 0 before.getLast? rest with
  | none =>
      rw [namespaceRound_of_keyword_none hkeyword]
      exact places_finished
  | some gap =>
      obtain ⟨blanks, scope, tail, rfl, hblanks, hstart, hscope, hend⟩ :=
        exists_announcement hkeyword
      rw [namespaceRound_of_keyword hkeyword hblanks hstart hscope hend]
      simp only
      split
      next hnil =>
        have hmark := isMark_of_name (by decide) isNameChar_of_mem_namespace (before ++ gap)
          (blanks ++ (scope ++ (tail ++ after)))
        rw [size_append] at hmark
        refine IsPlaced.places ⟨_, _, by simpa using hmark, ?_, ?_, rfl⟩ _ <;>
          simp only [size_append] <;> omega
      next hne =>
        have htext :
            before ++ (gap ++ ("namespace".toList ++ (blanks ++ (scope ++ tail)))) ++ after =
            before ++ (gap ++ ("namespace".toList ++ blanks)) ++ scope ++ tail ++ after := by simp
        rw [htext]
        exact places_scopeRound hne hscope

/-- Every problem with native functions is reported at a range of the text. -/
theorem isPlaced_of_functionsIn {t : Text} {found : Findings NativeFunction}
    (h : functionsIn t = .ok found) : ∀ problem ∈ found.problems, IsPlaced t problem := by
  rw [functionsIn, ofText_eq_amid] at h
  simpa using isPlaced_of_collect places_namespaceRound exists_next_of_namespaceRound h

end

/-! ## Enumerations -/

/-- The ends of a round over enumerations at the text `rest` behind `before`. No round fails. -/
inductive EnumOutcome (before rest after : Text) : Except BadCut (Round EnumBlock) → Prop
  | finished : EnumOutcome before rest after (.ok .finished)
  | found {part left : Text} (batch : Findings EnumBlock) (hrest : rest = part ++ left)
      (hpart : part ≠ [])
      (hplaced : ∀ problem ∈ batch.problems, IsPlaced (before ++ rest ++ after) problem) :
      EnumOutcome before rest after (.ok (.found batch (amid (before ++ part) left after)))

/-- A name that was read stands right before the cursor. -/
def EndsIn (passed : Text) (found? : Option (Text × Span)) : Prop :=
  ∀ name place, found? = some (name, place) → ∃ front, passed = front ++ name ∧ IsName name ∧
    place = .between (size front) (size front + size name)

/-- What a round does behind the name of an enumeration. -/
def blockRound (name : Text) (place : Span) (start : Nat) (s : Cursor) :
    Except BadCut (Round EnumBlock) := do
  let (target?, s) ← s.upToAny ['{', ';']
  match target? with
  | none => return .found (.problem (.enumWithoutBody name place)) s
  | some ('{', _) =>
    let (block, next) ← s.block '{' '}'
    match block with
    | .error cause =>
      return .found (.problem (.malformedEnum name cause)) (s.moveTo (s.pos + 1))
    | .ok (opening, closing) =>
      let (_, next) ← (← next.skipBlanks).accept ';'
      let body ← slice (opening + 1) closing s.text
      return .found (.item ⟨name, enumEntries name body, .between start next.pos⟩) next
  | some _ => return .found {} s

section

variable {before rest after : Text}

theorem EnumOutcome.of_problem {problem : Problem} {part left : Text} (hrest : rest = part ++ left)
    (hpart : part ≠ []) (h : IsPlaced (before ++ rest ++ after) problem) :
    EnumOutcome before rest after
      (.ok (.found (.problem problem) (amid (before ++ part) left after))) := by
  refine .found _ hrest hpart ?_
  intro reported hreported
  obtain rfl := List.mem_singleton.mp hreported
  exact h

theorem EnumOutcome.of_no_problem {part left : Text} (batch : Findings EnumBlock)
    (hproblems : batch.problems = []) (hrest : rest = part ++ left) (hpart : part ≠ []) :
    EnumOutcome before rest after
      (.ok (.found batch (amid (before ++ part) left after))) := by
  refine .found _ hrest hpart ?_
  rw [hproblems]
  exact fun problem hproblem => absurd hproblem List.not_mem_nil

theorem exists_skipBlanks_name (before rest after : Text) :
    ∃ part left found?, rest = part ++ left ∧ EndsIn (before ++ part) found? ∧
      ((amid before rest after).skipBlanks >>= Cursor.name) =
        .ok (found?, amid (before ++ part) left after) := by
  obtain ⟨blanks, tail, rfl, hblanks, htail⟩ := exists_run_append isBlank rest
  rw [skipBlanks_amid hblanks htail, ok_bind]
  obtain ⟨name, tail, rfl, hname, hend⟩ := exists_run_append isNameChar tail
  by_cases hne : name = []
  · subst hne
    exact ⟨blanks, tail, none, rfl, fun _ _ h => absurd h.symm (Option.some_ne_none _),
      name_amid_of_head? hend⟩
  · refine ⟨blanks ++ name, tail, some (name, .between (size (before ++ blanks))
      (size (before ++ blanks) + size name)), (List.append_assoc _ _ _).symm, ?_, ?_⟩
    · rintro _ _ ⟨⟩
      exact ⟨before ++ blanks, (List.append_assoc _ _ _).symm, ⟨hne, hname⟩, rfl⟩
    · rw [name_amid hne hname hend, List.append_assoc]

theorem exists_enumName (before rest after : Text) :
    ∃ part left found?, rest = part ++ left ∧ EndsIn (before ++ part) found? ∧
      enumName (amid before rest after) = .ok (found?, amid (before ++ part) left after) := by
  obtain ⟨part, left, first?, rfl, hfirst, hname⟩ := exists_skipBlanks_name before rest after
  rw [enumName, ← bind_assoc, hname, ok_bind]
  simp only
  split
  · obtain ⟨more, left, found?, rfl, hfound, hname⟩ :=
      exists_skipBlanks_name (before ++ part) left after
    rw [List.append_assoc] at hfound hname
    exact ⟨part ++ more, left, found?, (List.append_assoc _ _ _).symm, hfound, hname⟩
  · exact ⟨part, left, first?, rfl, hfirst, rfl⟩

theorem exists_skipBlanks_accept (c : Char) (before rest after : Text) :
    ∃ part left accepted, rest = part ++ left ∧
      ((amid before rest after).skipBlanks >>= fun s => s.accept c) =
        .ok (accepted, amid (before ++ part) left after) := by
  obtain ⟨blanks, tail, rfl, hblanks, htail⟩ := exists_run_append isBlank rest
  rw [skipBlanks_amid hblanks htail, ok_bind]
  by_cases hc : tail.head? = some c
  · obtain ⟨left, rfl⟩ := List.head?_eq_some_iff.mp hc
    refine ⟨blanks ++ [c], left, true, by simp, ?_⟩
    rw [accept_amid, List.append_assoc]
  · refine ⟨blanks, tail, false, rfl, ?_⟩
    rw [accept, peek_amid, ok_bind, if_neg hc]
    rfl

theorem isPlaced_enumWithoutBody {name : Text} (hname : IsName name) (front behind : Text) :
    IsPlaced (front ++ (name ++ behind))
      (.enumWithoutBody name (.between (size front) (size front + size name))) := by
  refine ⟨_, _, isMark_of_name hname.ne_nil hname.isNameChar front behind,
    Nat.le_add_right _ _, ?_, rfl⟩
  rw [size_append, size_append]
  omega

theorem isPlaced_malformedEnum (name front behind : Text) :
    IsPlaced (front ++ '{' :: behind) (.malformedEnum name (.unterminated '{' (size front))) := by
  refine ⟨_, _, ⟨front, '{', behind, rfl, rfl, by decide⟩, Nat.le_succ _, ?_, rfl⟩
  rw [size_append, size_cons]
  exact Nat.add_le_add_left (Nat.le_trans (one_le_utf8Size '{') (Nat.le_add_right _ _)) _

theorem blockRound_outcome {part left front name : Text} (hrest : rest = part ++ left)
    (hpart : part ≠ []) (hpassed : before ++ part = front ++ name) (hname : IsName name)
    (start : Nat) :
    EnumOutcome before rest after (blockRound name
      (.between (size front) (size front + size name)) start
      (amid (before ++ part) left after)) := by
  unfold blockRound
  cases htarget : upToTarget? ['{', ';'] 0 left with
  | none =>
      have htext : before ++ rest ++ after = front ++ (name ++ (left ++ after)) := by
        rw [hrest, ← List.append_assoc, hpassed]
        simp
      rw [upToAny_amid_of_eq_none htarget, ok_bind]
      apply EnumOutcome.of_problem hrest hpart
      rw [htext]
      exact isPlaced_enumWithoutBody hname front (left ++ after)
  | some found =>
      obtain ⟨clause, c⟩ := found
      obtain ⟨hc, left, rfl⟩ := eq_append_of_upToTarget? htarget
      rw [upToAny_amid htarget, ok_bind, List.append_assoc before]
      rcases List.mem_pair.mp hc with rfl | rfl
      · simp only
        rcases block_amid_cases (by decide : '{' ≠ '}') (before ++ (part ++ clause)) left after with
          ⟨-, hblock⟩ | ⟨body, left, rfl, -, hblock⟩
        · have htext : before ++ rest ++ after =
              before ++ (part ++ clause) ++ '{' :: (left ++ after) := by
            simp [hrest]
          rw [hblock, ok_bind, pos_amid]
          simp only
          rw [moveTo_amid (by decide), List.append_assoc before]
          apply EnumOutcome.of_problem (by simp [hrest]) (by simp)
          rw [htext]
          exact isPlaced_malformedEnum name _ _
        · obtain ⟨behind, left, accepted, rfl, haccept⟩ := exists_skipBlanks_accept ';'
            (before ++ (part ++ clause) ++ '{' :: (body ++ ['}'])) left after
          have hslice := slice_amid_behind_mark (before ++ (part ++ clause))
            ('}' :: (behind ++ left)) after (by decide : '{'.utf8Size = 1) body
          rw [hblock, ok_bind]
          simp only
          rw [← bind_assoc, haccept, ok_bind]
          simp only
          rw [hslice, ok_bind]
          simp only [List.append_assoc before]
          exact .of_no_problem _ rfl (by simp [hrest]) (by simp)
      · exact .of_no_problem _ rfl (by simp [hrest]) (by simp [hpart])

theorem enumRound_outcome (before rest after : Text) :
    EnumOutcome before rest after (enumRound (amid before rest after)) := by
  cases hkeyword : upToWordAt? "enum".toList sameDepth 0 before.getLast? rest with
  | none =>
      rw [enumRound, passWord_amid_of_eq_none (by decide) isNameChar_of_mem_enum hkeyword, ok_bind]
      exact .finished
  | some gap =>
      obtain ⟨tail, rfl, -, -⟩ := eq_append_of_upToWordAt? hkeyword
      obtain ⟨part, left, found?, rfl, hfound, hname⟩ :=
        exists_enumName (before ++ gap ++ "enum".toList) tail after
      have hrest : gap ++ ("enum".toList ++ (part ++ left)) =
          gap ++ "enum".toList ++ part ++ left := by simp
      have hcursor : before ++ gap ++ "enum".toList ++ part =
          before ++ (gap ++ "enum".toList ++ part) := by simp
      rw [enumRound, passWord_amid_of_eq_some (by decide) isNameChar_of_mem_enum hkeyword, ok_bind]
      simp only
      rw [hname, ok_bind]
      rw [hcursor] at hfound ⊢
      cases found? with
      | none =>
          have hmark := isMark_of_name (by decide) isNameChar_of_mem_enum (before ++ gap)
            (part ++ left ++ after)
          refine .of_problem hrest (by simp) ⟨_, _, by simpa using hmark, ?_, ?_, rfl⟩ <;>
            simp only [pos_amid, size_append] <;> omega
      | some found =>
          obtain ⟨name, place⟩ := found
          obtain ⟨front, hpassed, hword, rfl⟩ := hfound name place rfl
          exact blockRound_outcome hrest (by simp) hpassed hword _

theorem places_enumRound (before rest after : Text) :
    Places (before ++ rest ++ after) (enumRound (amid before rest after)) := by
  intro batch next hround
  have houtcome := enumRound_outcome before rest after
  rw [hround] at houtcome
  cases houtcome with
  | found _ _ _ hplaced => exact hplaced

theorem exists_next_of_enumRound {batch : Findings EnumBlock} {next : Cursor}
    (h : enumRound (amid before rest after) = .ok (.found batch next)) :
    ∃ part left, rest = part ++ left ∧ part ≠ [] ∧ next = amid (before ++ part) left after := by
  have houtcome := enumRound_outcome before rest after
  rw [h] at houtcome
  cases houtcome with
  | found _ hrest hpart _ => exact ⟨_, _, hrest, hpart, rfl⟩

/-- Every problem with enumerations is reported at a range of the text. -/
theorem isPlaced_of_enumsIn {t : Text} {found : Findings EnumBlock}
    (h : enumsIn t = .ok found) : ∀ problem ∈ found.problems, IsPlaced t problem := by
  rw [enumsIn, ofText_eq_amid] at h
  simpa using isPlaced_of_collect places_enumRound exists_next_of_enumRound h

end

end HeaderBindings.Header
