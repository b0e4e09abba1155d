import HeaderBindings.Proofs.Header.Moves
import HeaderBindings.Proofs.Header.Rounds

/-! # What a round may come to

Each round over functions or namespace blocks comes to one of a few ends, whatever the text is:
there is nothing further to read, a problem is reported, something is read, or a head cannot be
cut. A round that goes on has passed some text. -/

namespace HeaderBindings.Header

open List Text Cursor

/-! ## The stages of a round over functions -/

/-- What ends the search for the parameter list of a function. -/
abbrev headEnds : List Char := ['(', ';', '{', '}']

/-- What a round does behind a parameter list: `start` is the offset of the keyword, `paren` is
where the head ends, and the list lies between `opening` and `closing`. -/
def bodyRound (scope result name : Text) (start paren opening closing : Nat) (s : Cursor) :
    Except BadCut (Round NativeFunction) := do
  let s ← s.skipBlanks
  if (← s.peek) ≠ some '{' then
    return .found (.problem (.missingBody scope name start s.pos)) s
  match (← s.block '{' '}') with
  | (.error cause, _) =>
    return .found (.problem (.functionBlock scope name cause start paren))
      (← recover "static" s.pos s)
  | (.ok _, next) =>
    let list ← slice (opening + 1) closing s.text
    return .found
      (.item ⟨scope, result, name, parameters list, .between start next.pos⟩) next

/-- What a round does at the parenthesis behind a head. -/
def headRound (scope head : Text) (start : Nat) (s : Cursor) :
    Except BadCut (Round NativeFunction) := do
  match (← signature? head) with
  | none =>
    let problem := Problem.malformedHead scope head start s.pos
    match (← s.block '(' ')') with
    | (.ok _, next) => return .found (.problem problem) next
    | (.error _, _) => return .found (.problem problem) (← recover "static" s.pos s)
  | some (result, name) =>
    match (← s.block '(' ')') with
    | (.error cause, _) =>
      return .found (.problem (.functionBlock scope name cause start s.pos))
        (← recover "static" s.pos s)
    | (.ok (opening, closing), next) => bodyRound scope result name start s.pos opening closing next

/-- What a round does at another mark. -/
def strayRound (scope : Text) (found : Char) (start : Nat) (s : Cursor) :
    Except BadCut (Round NativeFunction) := do
  let problem := Problem.notAFunction scope start s.pos
  if found = '{' then
    match (← s.block '{' '}') with
    | (.ok _, next) => return .found (.problem problem) next
    | (.error _, _) => return .found (.problem problem) (s.moveTo (s.pos + 1))
  else return .found (.problem problem) (s.moveTo (s.pos + 1))

section Stages

variable {before gap head left after : Text}

theorem functionRound_of_keyword_none {rest : Text} (scope : Text)
    (h : upToWordAt? "static" braceDepthAfter 0 before.getLast? rest = none) (after : Text) :
    functionRound scope (amid before rest after) = .ok .finished := by
  rw [functionRound, passKeyword_amid_of_eq_none rfl h]
  rfl

theorem functionRound_of_target_none {tail : Text} (scope : Text)
    (hkeyword : upToWordAt? "static" braceDepthAfter 0 before.getLast?
      (gap ++ ("static".toList ++ tail)) = some gap)
    (htarget : upToTarget? headEnds 0 tail = none) (after : Text) :
    functionRound scope (amid before (gap ++ ("static".toList ++ tail)) after) = .ok .finished := by
  rw [functionRound, passKeyword_amid_of_eq_some rfl hkeyword, ok_bind]
  simp only
  rw [upToAny_amid_of_eq_none htarget]
  rfl

theorem functionRound_of_target {c : Char} (scope : Text)
    (hkeyword : upToWordAt? "static" braceDepthAfter 0 before.getLast?
      (gap ++ ("static".toList ++ (head ++ c :: left))) = some gap)
    (htarget : upToTarget? headEnds 0 (head ++ c :: left) = some (head, c)) (after : Text) :
    functionRound scope (amid before (gap ++ ("static".toList ++ (head ++ c :: left))) after) =
      let s := amid (before ++ (gap ++ ("static".toList ++ head))) (c :: left) after
      if c = '(' then headRound scope head (size before + size gap) s
      else strayRound scope c (size before + size gap) s := by
  have hfront : before ++ gap ++ "static".toList ++ head =
      before ++ (gap ++ ("static".toList ++ head)) := by simp
  have hslice : slice (size (before ++ gap ++ "static".toList))
      (size (before ++ (gap ++ ("static".toList ++ head))))
      (amid (before ++ (gap ++ ("static".toList ++ head))) (c :: left) after).text = .ok head := by
    rw [← hfront, size_append _ head]
    exact slice_amid _ _ _ head
  rw [functionRound, passKeyword_amid_of_eq_some rfl hkeyword, ok_bind]
  simp only
  rw [upToAny_amid htarget, ok_bind, ← size_append, hfront, pos_amid]
  simp only
  split
  next h => cases h
  next paren h =>
    obtain ⟨rfl, rfl⟩ := Prod.mk.inj (Option.some.inj h)
    rw [hslice, ok_bind, if_pos rfl]
    rfl
  next found offset hne h =>
    obtain ⟨rfl, rfl⟩ := Prod.mk.inj (Option.some.inj h)
    by_cases hc : c = '('
    · subst hc
      exact absurd h (by simp [hne])
    · rw [if_neg hc]
      rfl

end Stages

/-! ## What the rounds come to -/

/-- The namespace and the keyword of a problem with a function. -/
def Problem.keyword? : Problem → Option (Text × Nat)
  | notAFunction scope start _ => some (scope, start)
  | malformedHead scope _ start _ => some (scope, start)
  | functionBlock scope _ _ start _ => some (scope, start)
  | missingBody scope _ start _ => some (scope, start)
  | _ => none

/-- The report of a function whose body is never closed. -/
def IsUnclosedBody (problem : Problem) : Prop :=
  ∃ scope name offset start stop,
    problem = .functionBlock scope name (.unterminated '{' offset) start stop

theorem not_isUnclosedBody_of_keyword? {problem : Problem} (h : problem.keyword? = none) :
    ¬ IsUnclosedBody problem := by
  rintro ⟨scope, name, offset, start, stop, rfl⟩
  cases h

/-- The ends of a round over functions at the text `rest` behind `before`. -/
inductive FunctionOutcome (scope before rest after : Text) :
    Except BadCut (Round NativeFunction) → Prop
  | finished : FunctionOutcome scope before rest after (.ok .finished)
  | reported {part left : Text} (problem : Problem) (hrest : rest = part ++ left)
      (hpart : part ≠ [])
      (hbody : IsUnclosedBody problem → ∃ front later,
        rest = front ++ '{' :: later ∧ blockInside? '{' '}' 0 later = none) :
      FunctionOutcome scope before rest after
        (.ok (.found (.problem problem) (amid (before ++ part) left after)))
  | read {gap head list space inside left result name : Text}
      (hrest : rest = gap ++ functionText head list space inside ++ left)
      (hword : IsWholeWord (gap.getLast?.or before.getLast?) (head ++ ['(']).head?)
      (hhead : ∀ c ∈ head, c ∉ headEnds) (hsignature : signature? head = .ok (some (result, name)))
      (hlist : Balanced '(' ')' list) (hspace : ∀ c ∈ space, isBlank c = true)
      (hinside : Balanced '{' '}' inside) :
      FunctionOutcome scope before rest after
        (.ok (.found
          (.item ⟨scope, result, name, parameters list, .between (size before + size gap)
            (size before + size gap + size (functionText head list space inside))⟩)
          (amid (before ++ (gap ++ functionText head list space inside)) left after)))
  | badHead {gap head left : Text} {cut : BadCut}
      (hrest : rest = gap ++ ("static".toList ++ (head ++ '(' :: left)))
      (hhead : ∀ c ∈ head, c ∉ headEnds) (hsignature : signature? head = .error cut) :
      FunctionOutcome scope before rest after (.error cut)

variable {scope before rest after : Text}

theorem isNameChar_of_mem_static : ∀ c ∈ "static".toList, isNameChar c = true :=
  List.all_eq_true.mp (by decide)

theorem utf8Size_of_mem_headEnds : ∀ c ∈ headEnds, c.utf8Size = 1 :=
  List.all_iff_forall_prop.mp (by decide)

theorem FunctionOutcome.of_recover (problem : Problem) {part left : Text} {c : Char}
    (hc : c.utf8Size = 1) (hrest : rest = part ++ c :: left)
    (hbody : IsUnclosedBody problem → ∃ front later,
      rest = front ++ '{' :: later ∧ blockInside? '{' '}' 0 later = none) :
    FunctionOutcome scope before rest after
      (recover "static" (size (before ++ part)) (amid (before ++ part) (c :: left) after) >>=
        fun next => pure (.found (.problem problem) next)) := by
  obtain ⟨passed, later, rfl, hrecover⟩ :=
    exists_recover_amid hc (by decide) isNameChar_of_mem_static (before ++ part) left after
  rw [hrecover, ok_bind, List.append_assoc]
  exact .reported problem (by simp [hrest]) (by simp) hbody

theorem FunctionOutcome.of_moveTo {problem : Problem} (hbody : ¬ IsUnclosedBody problem)
    {part left : Text} {c : Char} (hc : c.utf8Size = 1) (hrest : rest = part ++ c :: left) :
    FunctionOutcome scope before rest after
      (.ok (.found (.problem problem)
        ((amid (before ++ part) (c :: left) after).moveTo (size (before ++ part) + 1)))) := by
  rw [moveTo_amid hc, List.append_assoc]
  exact .reported problem (by simp [hrest]) (by simp) fun h => absurd h hbody

theorem FunctionOutcome.of_block {problem : Problem} (hbody : ¬ IsUnclosedBody problem)
    {part left inside : Text} {opening closing : Char}
    (hrest : rest = part ++ opening :: (inside ++ closing :: left)) :
    FunctionOutcome scope before rest after
      (.ok (.found (.problem problem)
        (amid (before ++ part ++ opening :: (inside ++ [closing])) left after))) := by
  rw [List.append_assoc]
  exact .reported problem (by simp [hrest]) (by simp) fun h => absurd h hbody

/-! ## Functions -/

theorem slice_list (front list later rest after : Text) :
    slice (size front + 1) (size front + '('.utf8Size + size list)
      (amid (front ++ '(' :: (list ++ [')']) ++ later) rest after).text = .ok list := by
  have hslice := slice_behind_mark (by decide : '('.utf8Size = 1) front list
    (')' :: (later ++ (rest ++ after)))
  simpa only [text_amid, List.append_assoc, List.cons_append, List.nil_append] using hslice

theorem functionOutcome_of_list {gap head list later result name : Text}
    (hword : IsWholeWord (gap.getLast?.or before.getLast?) (head ++ ['(']).head?)
    (hhead : ∀ c ∈ head, c ∉ headEnds) (hsignature : signature? head = .ok (some (result, name)))
    (hlist : Balanced '(' ')' list) :
    let front := gap ++ ("static".toList ++ head)
    let start := size before + size gap
    let paren := size (before ++ front)
    FunctionOutcome scope before
      (gap ++ ("static".toList ++ (head ++ '(' :: (list ++ ')' :: later)))) after
      (bodyRound scope result name start paren paren (paren + '('.utf8Size + size list)
        (amid (before ++ front ++ '(' :: (list ++ [')'])) later after)) := by
  intro front start paren
  obtain ⟨space, tail, rfl, hspace, htail⟩ := exists_run_append isBlank later
  obtain ⟨part, hpart⟩ : ∃ part, part = front ++ '(' :: (list ++ ')' :: space) := ⟨_, rfl⟩
  have hcursor : before ++ front ++ '(' :: (list ++ [')']) ++ space = before ++ part := by
    simp [hpart]
  have hrest : gap ++ ("static".toList ++ (head ++ '(' :: (list ++ ')' :: (space ++ tail)))) =
      part ++ tail := by
    simp [hpart, front]
  rw [bodyRound, skipBlanks_amid hspace htail, ok_bind, peek_amid, ok_bind, hcursor, hrest]
  by_cases hbody : tail.head? = some '{'
  · obtain ⟨left, rfl⟩ := List.head?_eq_some_iff.mp hbody
    rw [if_neg (by simp)]
    rcases block_amid_cases (by decide : '{' ≠ '}') (before ++ part) left after with
      ⟨hnone, hblock⟩ | ⟨inside, left, rfl, hinside, hblock⟩
    · rw [hblock]
      exact .of_recover _ (by decide) rfl fun _ => ⟨part, left, rfl, hnone⟩
    · have hslice : slice (paren + 1) (paren + '('.utf8Size + size list)
          (amid (before ++ part) ('{' :: (inside ++ '}' :: left)) after).text = .ok list := by
        rw [← hcursor]
        exact slice_list (before ++ front) list space _ after
      have hfunction : part ++ '{' :: (inside ++ ['}']) =
          gap ++ functionText head list space inside := by
        unfold functionText
        simp only [hpart, front, List.append_assoc, List.cons_append]
      have hrest : part ++ '{' :: (inside ++ '}' :: left) =
          gap ++ functionText head list space inside ++ left := by
        rw [← hfunction]
        simp
      rw [hblock, ok_bind]
      simp only
      rw [hslice, ok_bind, pos_amid, List.append_assoc, hfunction, hrest, size_append,
        size_append, ← Nat.add_assoc]
      exact .read rfl hword hhead hsignature hlist hspace hinside
  · rw [if_pos hbody]
    exact .reported _ rfl (by simp [hpart]) fun h => absurd h (by simp [IsUnclosedBody])

theorem headRound_outcome {gap head left : Text}
    (hword : IsWholeWord (gap.getLast?.or before.getLast?) (head ++ ['(']).head?)
    (hhead : ∀ c ∈ head, c ∉ headEnds) :
    FunctionOutcome scope before (gap ++ ("static".toList ++ (head ++ '(' :: left))) after
      (headRound scope head (size before + size gap)
        (amid (before ++ (gap ++ ("static".toList ++ head))) ('(' :: left) after)) := by
  have hrest : gap ++ ("static".toList ++ (head ++ '(' :: left)) =
      gap ++ ("static".toList ++ head) ++ '(' :: left := by simp
  rw [headRound]
  cases hsignature : signature? head with
  | error cut => exact .badHead rfl hhead hsignature
  | ok signature =>
      rw [ok_bind]
      rcases block_amid_cases (by decide : '(' ≠ ')')
          (before ++ (gap ++ ("static".toList ++ head))) left after with
        ⟨-, hblock⟩ | ⟨list, later, rfl, hlist, hblock⟩
      · cases signature <;> simp only <;> rw [hblock] <;>
          exact .of_recover _ (by decide) hrest fun h => absurd h (by simp [IsUnclosedBody])
      · cases signature with
        | none =>
            simp only
            rw [hblock, ok_bind]
            exact .of_block (by simp [IsUnclosedBody]) hrest
        | some signature =>
            simp only
            rw [hblock, ok_bind]
            exact functionOutcome_of_list hword hhead hsignature hlist

theorem strayRound_outcome {part left : Text} {c : Char} (hc : c ∈ headEnds) (start : Nat)
    (hrest : rest = part ++ c :: left) :
    FunctionOutcome scope before rest after
      (strayRound scope c start (amid (before ++ part) (c :: left) after)) := by
  have hproblem : ¬ IsUnclosedBody (.notAFunction scope start (size (before ++ part))) := by
    simp [IsUnclosedBody]
  rw [strayRound]
  by_cases hopen : c = '{'
  · subst hopen
    rw [if_pos rfl]
    rcases block_amid_cases (by decide : '{' ≠ '}') (before ++ part) left after with
      ⟨-, hblock⟩ | ⟨inside, later, rfl, hinside, hblock⟩
    · rw [hblock]
      exact .of_moveTo hproblem (by decide) hrest
    · rw [hblock, ok_bind]
      exact .of_block hproblem hrest
  · rw [if_neg hopen]
    exact .of_moveTo hproblem (utf8Size_of_mem_headEnds c hc) hrest

theorem functionRound_outcome (scope before rest after : Text) :
    FunctionOutcome scope before rest after (functionRound scope (amid before rest after)) := by
  cases hkeyword : upToWordAt? "static".toList braceDepthAfter 0 before.getLast? rest with
  | none =>
      rw [functionRound_of_keyword_none scope hkeyword]
      exact .finished
  | some gap =>
      obtain ⟨tail, rfl, hbefore, hbehind⟩ := eq_append_of_upToWordAt? hkeyword
      cases htarget : upToTarget? headEnds 0 tail with
      | none =>
          rw [functionRound_of_target_none scope hkeyword htarget]
          exact .finished
      | some found =>
          obtain ⟨head, c⟩ := found
          obtain ⟨hc, left, rfl⟩ := eq_append_of_upToTarget? htarget
          rw [functionRound_of_target scope hkeyword htarget]
          by_cases hparen : c = '('
          · subst hparen
            have hword : IsWholeWord (gap.getLast?.or before.getLast?) (head ++ ['(']).head? := by
              refine ⟨hbefore, ?_⟩
              cases head <;> exact hbehind
            exact headRound_outcome hword
              (not_mem_targets_of_upToTarget? (by decide) (by decide) htarget)
          · rw [if_neg hparen]
            exact strayRound_outcome hc _ (by simp)

theorem exists_next_of_functionRound {batch : Findings NativeFunction} {next : Cursor}
    (h : functionRound scope (amid before rest after) = .ok (.found batch next)) :
    ∃ part left, rest = part ++ left ∧ part ≠ [] ∧ next = amid (before ++ part) left after := by
  have houtcome := functionRound_outcome scope before rest after
  rw [h] at houtcome
  cases houtcome with
  | reported problem hrest hpart => exact ⟨_, _, hrest, hpart, rfl⟩
  | read hrest =>
      refine ⟨_, _, hrest, ?_, rfl⟩
      unfold functionText
      simp

theorem remaining_lt_of_functionRound {batch : Findings NativeFunction} {next : Cursor}
    (h : functionRound scope (amid before rest after) = .ok (.found batch next)) :
    next.remaining < (amid before rest after).remaining := by
  obtain ⟨part, left, hrest, hpart, rfl⟩ := exists_next_of_functionRound h
  exact remaining_amid_lt hrest hpart

/-! ## Namespace blocks -/

/-- The text up to the block of a namespace, in which the word `namespace` and the name of the
namespace come last. -/
inductive AnnouncesScope (scope : Text) (before? : Option Char) : Text → Prop
  | intro {gap blanks space : Text} (hbefore : separatesWords (gap.getLast?.or before?) = true)
      (hne : blanks ≠ []) (hblanks : ∀ c ∈ blanks, isBlank c = true) (hscope : IsName scope)
      (hspace : ∀ c ∈ space, isBlank c = true) :
      AnnouncesScope scope before? (gap ++ ("namespace".toList ++ (blanks ++ (scope ++ space))))

/-- The ends of a round over namespace blocks at the text `rest` behind `before`. -/
inductive NamespaceOutcome (before rest after : Text) :
    Except BadCut (Round NativeFunction) → Prop
  | finished : NamespaceOutcome before rest after (.ok .finished)
  | reported {part left : Text} (problem : Problem) (hrest : rest = part ++ left)
      (hpart : part ≠ []) (hscope : problem.keyword? = none) :
      NamespaceOutcome before rest after
        (.ok (.found (.problem problem) (amid (before ++ part) left after)))
  | read {part inside left scope : Text} {found : Findings NativeFunction}
      (hrest : rest = part ++ '{' :: (inside ++ '}' :: left))
      (hpart : AnnouncesScope scope before.getLast? part) (hinside : Balanced '{' '}' inside)
      (hfound : collect (functionRound scope)
        (amid (before ++ part ++ ['{']) inside ('}' :: (left ++ after))) = .ok found) :
      NamespaceOutcome before rest after
        (.ok (.found found (amid (before ++ (part ++ '{' :: (inside ++ ['}']))) left after)))
  | badHead {part inside left scope : Text} {cut : BadCut}
      (hrest : rest = part ++ '{' :: (inside ++ '}' :: left))
      (hfound : collect (functionRound scope)
        (amid (before ++ part ++ ['{']) inside ('}' :: (left ++ after))) = .error cut) :
      NamespaceOutcome before rest after (.error cut)

theorem isNameChar_of_mem_namespace : ∀ c ∈ "namespace".toList, isNameChar c = true :=
  List.all_eq_true.mp (by decide)

/-- What a round does behind the name of a namespace. -/
def scopeRound (scope : Text) (place : Span) (s : Cursor) :
    Except BadCut (Round NativeFunction) := do
  let s ← s.skipBlanks
  match (← s.block '{' '}') with
  | (.error cause, _) =>
    let problem := Problem.namespaceBlock scope cause place
    match cause with
    | .unterminated .. => return .found (.problem problem) (← recover "namespace" s.pos s)
    | .expected .. => return .found (.problem problem) s
  | (.ok (opening, closing), next) =>
    return .found (← collect (functionRound scope) ⟨s.text, opening + 1, closing⟩) next

section Equations

variable {gap blanks scope tail : Text}

theorem namespaceRound_of_keyword_none
    (h : upToWordAt? "namespace" braceDepthAfter 0 before.getLast? rest = none) (after : Text) :
    namespaceRound (amid before rest after) = .ok .finished := by
  rw [namespaceRound, passKeyword_amid_of_eq_none rfl h]
  rfl

/-- What follows the keyword: blanks and a name, which may be empty. -/
theorem exists_announcement
    (h : upToWordAt? "namespace" braceDepthAfter 0 before.getLast? rest = some gap) :
    ∃ blanks scope tail, rest = gap ++ ("namespace".toList ++ (blanks ++ (scope ++ tail))) ∧
      (∀ c ∈ blanks, isBlank c = true) ∧ (∀ c ∈ (scope ++ tail).head?, isBlank c = false) ∧
      (∀ c ∈ scope, isNameChar c = true) ∧ ∀ c ∈ tail.head?, isNameChar c = false := by
  obtain ⟨behind, rfl, -, -⟩ := eq_append_of_upToWordAt? h
  obtain ⟨blanks, named, rfl, hblanks, hstart⟩ := exists_run_append isBlank behind
  obtain ⟨scope, tail, rfl, hscope, hend⟩ := exists_run_append isNameChar named
  exact ⟨blanks, scope, tail, rfl, hblanks, hstart, hscope, hend⟩

/-- A round passes the keyword and the name, and the rest of it starts behind the name. -/
theorem namespaceRound_of_keyword
    (hkeyword : upToWordAt? "namespace" braceDepthAfter 0 before.getLast?
      (gap ++ ("namespace".toList ++ (blanks ++ (scope ++ tail)))) = some gap)
    (hblanks : ∀ c ∈ blanks, isBlank c = true)
    (hstart : ∀ c ∈ (scope ++ tail).head?, isBlank c = false)
    (hscope : ∀ c ∈ scope, isNameChar c = true) (hend : ∀ c ∈ tail.head?, isNameChar c = false)
    (after : Text) :
    namespaceRound
        (amid before (gap ++ ("namespace".toList ++ (blanks ++ (scope ++ tail)))) after) =
      let front := before ++ (gap ++ ("namespace".toList ++ blanks))
      let s := amid (front ++ scope) tail after
      if scope = [] then
        .ok (.found (.problem (.unnamedNamespace (size before + size gap) (size front))) s)
      else scopeRound scope (.between (size front) (size front + size scope)) s := by
  have hfront : before ++ gap ++ "namespace".toList ++ blanks =
      before ++ (gap ++ ("namespace".toList ++ blanks)) := by simp
  rw [namespaceRound, passKeyword_amid_of_eq_some rfl hkeyword, ok_bind]
  simp only
  rw [skipBlanks_amid hblanks hstart, ok_bind, hfront]
  by_cases hne : scope = []
  · subst hne
    rw [List.nil_append, name_amid_of_head? hend, if_pos rfl, List.append_nil]
    rfl
  · rw [name_amid hne hscope hend, if_neg hne]
    rfl

theorem scopeRound_of_ne {space : Text} (hspace : ∀ c ∈ space, isBlank c = true)
    (hstart : ∀ c ∈ tail.head?, isBlank c = false) (hbody : tail.head? ≠ some '{') (scope : Text)
    (place : Span) (before after : Text) :
    scopeRound scope place (amid before (space ++ tail) after) =
      .ok (.found (.problem (.namespaceBlock scope (.expected '{' (size (before ++ space))) place))
        (amid (before ++ space) tail after)) := by
  rw [scopeRound, skipBlanks_amid hspace hstart, ok_bind, block_amid_of_ne hbody]
  rfl

theorem isBlank_of_mem_head?_brace (rest : Text) :
    ∀ c ∈ ('{' :: rest).head?, isBlank c = false := by
  rintro c ⟨⟩
  decide

theorem scopeRound_of_unclosed {space left : Text} (hspace : ∀ c ∈ space, isBlank c = true)
    (hblock : blockInside? '{' '}' 0 left = none) (scope : Text) (place : Span)
    (before after : Text) :
    scopeRound scope place (amid before (space ++ '{' :: left) after) = do
      let next ← recover "namespace" (size (before ++ space))
        (amid (before ++ space) ('{' :: left) after)
      let cause := .unterminated '{' (size (before ++ space))
      return .found (.problem (.namespaceBlock scope cause place)) next := by
  rw [scopeRound, skipBlanks_amid hspace (isBlank_of_mem_head?_brace left), ok_bind,
    block_amid_of_eq_none hblock]
  rfl

theorem scopeRound_of_balanced {space inside left : Text} (hspace : ∀ c ∈ space, isBlank c = true)
    (hinside : Balanced '{' '}' inside) (scope : Text) (place : Span) (before after : Text) :
    scopeRound scope place (amid before (space ++ '{' :: (inside ++ '}' :: left)) after) = do
      let found ← collect (functionRound scope)
        (amid (before ++ space ++ ['{']) inside ('}' :: (left ++ after)))
      return .found found (amid (before ++ space ++ '{' :: (inside ++ ['}'])) left after) := by
  rw [scopeRound, skipBlanks_amid hspace (isBlank_of_mem_head?_brace _), ok_bind,
    block_amid (by decide) hinside, ok_bind]
  simp only
  rw [inside_amid (by decide)]

end Equations

/-- The end of a round that has passed `part` up to the name of a namespace. -/
theorem scopeRound_outcome {part rest : Text}
    (hpart : ∀ space, (∀ c ∈ space, isBlank c = true) →
      AnnouncesScope scope before.getLast? (part ++ space))
    (hne : part ≠ []) (place : Span) :
    NamespaceOutcome before (part ++ rest) after
      (scopeRound scope place (amid (before ++ part) rest after)) := by
  obtain ⟨space, tail, rfl, hspace, htail⟩ := exists_run_append isBlank rest
  rw [← List.append_assoc part]
  by_cases hbody : tail.head? = some '{'
  · obtain ⟨left, rfl⟩ := List.head?_eq_some_iff.mp hbody
    cases hblock : blockInside? '{' '}' 0 left with
    | none =>
        obtain ⟨passed, later, rfl, hrecover⟩ :=
          exists_recover_amid (by decide : '{'.utf8Size = 1) (by decide)
            isNameChar_of_mem_namespace (before ++ part ++ space) left after
        have hleft : part ++ space ++ '{' :: (passed ++ later) =
            part ++ space ++ '{' :: passed ++ later := by
          simp
        rw [scopeRound_of_unclosed hspace hblock, hrecover, ok_bind, List.append_assoc before,
          List.append_assoc before]
        exact .reported _ hleft (by simp) rfl
    | some inside =>
        obtain ⟨⟨left, rfl⟩, hinside⟩ := balanced_of_blockInside? (by decide) hblock
        rw [scopeRound_of_balanced hspace hinside, List.append_assoc before part]
        cases hfound : collect (functionRound scope)
            (amid (before ++ (part ++ space) ++ ['{']) inside ('}' :: (left ++ after))) with
        | error cut => exact .badHead rfl hfound
        | ok found =>
            rw [ok_bind, List.append_assoc before]
            exact .read rfl (hpart space hspace) hinside hfound
  · rw [scopeRound_of_ne hspace htail hbody, List.append_assoc before]
    exact .reported _ rfl (by simp [hne]) rfl

theorem namespaceRound_outcome (before rest after : Text) :
    NamespaceOutcome before rest after (namespaceRound (amid before rest after)) := by
  cases hkeyword : upToWordAt? "namespace" braceDepthAfter 0 before.getLast? rest with
  | none =>
      rw [namespaceRound_of_keyword_none hkeyword]
      exact .finished
  | some gap =>
      obtain ⟨behind, hrest, hbefore, hbehind⟩ := eq_append_of_upToWordAt? hkeyword
      obtain ⟨blanks, scope, tail, rfl, hblanks, hstart, hscope, hend⟩ :=
        exists_announcement hkeyword
      obtain rfl := List.append_cancel_left (List.append_cancel_left hrest)
      have hpassed : gap ++ ("namespace".toList ++ (blanks ++ (scope ++ tail))) =
          gap ++ ("namespace".toList ++ blanks) ++ scope ++ tail := by simp
      rw [namespaceRound_of_keyword hkeyword hblanks hstart hscope hend, hpassed]
      simp only [List.append_assoc before]
      split
      next hne =>
        subst hne
        exact .reported _ rfl (by simp) rfl
      next hne =>
        have hnonempty : blanks ≠ [] := by
          rintro rfl
          rw [List.nil_append, List.head?_append_of_ne_nil _ hne,
            List.head?_eq_some_head hne] at hbehind
          simp [separatesWords, hscope _ (List.head_mem hne)] at hbehind
        refine scopeRound_outcome (fun space hspace => ?_) (by simp) _
        simpa using AnnouncesScope.intro hbefore hnonempty hblanks ⟨hne, hscope⟩ hspace

theorem exists_next_of_namespaceRound {batch : Findings NativeFunction} {next : Cursor}
    (h : namespaceRound (amid before rest after) = .ok (.found batch next)) :
    ∃ part left, rest = part ++ left ∧ part ≠ [] ∧ next = amid (before ++ part) left after := by
  have houtcome := namespaceRound_outcome before rest after
  rw [h] at houtcome
  cases houtcome with
  | reported problem hrest hpart => exact ⟨_, _, hrest, hpart, rfl⟩
  | @read part inside left scope found hrest =>
      exact ⟨part ++ '{' :: (inside ++ ['}']), left, hrest.trans (by simp), by simp, rfl⟩

theorem remaining_lt_of_namespaceRound {batch : Findings NativeFunction} {next : Cursor}
    (h : namespaceRound (amid before rest after) = .ok (.found batch next)) :
    next.remaining < (amid before rest after).remaining := by
  obtain ⟨part, left, hrest, hpart, rfl⟩ := exists_next_of_namespaceRound h
  exact remaining_amid_lt hrest hpart

end HeaderBindings.Header
