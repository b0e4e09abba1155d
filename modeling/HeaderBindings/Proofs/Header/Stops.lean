import HeaderBindings.Proofs.Header.Provenance

/-! # What each keyword adds

The reading of a namespace body stops at one `static` after the other. A stop adds exactly one
function or exactly one problem if one of the marks `(`, `;`, `{` and `}` follows it in the body.
If none does, it adds nothing, and the body ends there without a report. What is found in a header
is what its stops add, and the problems of the namespace blocks themselves. -/

namespace HeaderBindings.Header

open List Text Cursor

/-! ## Stops -/

/-- A keyword at which the reading of a namespace body stops: its offset, what follows it in the
body, and what it adds to the findings. -/
structure Stop where
  scope : Text
  offset : Nat
  behind : Text
  added : Findings NativeFunction

/-- The keyword stands as a whole word in a block of the namespace. -/
def Stop.StandsIn (t : Text) (stop : Stop) : Prop :=
  ∃ announcement front rest,
    IsScopeBlock t stop.scope announcement (front ++ ("static".toList ++ stop.behind)) rest ∧
    IsWholeWord (announcement ++ '{' :: front).getLast? stop.behind.head? ∧
    stop.offset = size (announcement ++ '{' :: front)

/-- One function or one problem, at a keyword. -/
inductive IsOneAt (scope : Text) (offset : Nat) : Findings NativeFunction → Prop
  | item {d : NativeFunction} (hscope : d.scope = scope)
      (hspan : ∃ stop, d.span = .between offset stop) : IsOneAt scope offset (.item d)
  | problem {p : Problem} (hkeyword : p.keyword? = some (scope, offset))
      (hspan : ∃ stop, p.diagnostic.span = some (.between offset stop)) :
      IsOneAt scope offset (.problem p)

/-- A stop adds one function or one problem if a mark follows the keyword, and nothing without
one. -/
structure Stop.IsCounted (stop : Stop) : Prop where
  isOneAt_iff : IsOneAt stop.scope stop.offset stop.added ↔ ∃ c ∈ stop.behind, c ∈ headEnds
  eq_nothing : (∀ c ∈ stop.behind, c ∉ headEnds) → stop.added = {}

/-- The stops of the reading of a namespace body, from a cursor on. -/
inductive BodyRun (scope : Text) : Cursor → List Stop → Prop
  | done {s next : Cursor} (hkeyword : s.passKeyword "static" = .ok (none, next)) :
      BodyRun scope s []
  | last {s next : Cursor} {offset : Nat} {behind : Text}
      (hkeyword : s.passKeyword "static" = .ok (some offset, next))
      (hbehind : next.rest = .ok behind) (hround : functionRound scope s = .ok .finished) :
      BodyRun scope s [⟨scope, offset, behind, {}⟩]
  | more {s next later : Cursor} {offset : Nat} {behind : Text} {added : Findings NativeFunction}
      {stops : List Stop} (hkeyword : s.passKeyword "static" = .ok (some offset, next))
      (hbehind : next.rest = .ok behind)
      (hround : functionRound scope s = .ok (.found added later))
      (hlater : BodyRun scope later stops) :
      BodyRun scope s (⟨scope, offset, behind, added⟩ :: stops)

/-- The stops of the reading of a header, from a cursor on. A round that reads a namespace block
ends behind the block and finds what the stops of its body add. -/
inductive HeaderRun (t : Text) : Cursor → List Stop → Prop
  | done {s : Cursor} (hround : namespaceRound s = .ok .finished) : HeaderRun t s []
  | reported {s next : Cursor} {problem : Problem} {stops : List Stop}
      (hround : namespaceRound s = .ok (.found (.problem problem) next))
      (hscope : problem.keyword? = none) (hlater : HeaderRun t next stops) : HeaderRun t s stops
  | read {s next : Cursor} {scope announcement inside rest : Text}
      {batch : Findings NativeFunction} {stops later : List Stop}
      (hround : namespaceRound s = .ok (.found batch next))
      (hblock : IsScopeBlock t scope announcement inside rest)
      (hnext : next.pos = size (announcement ++ '{' :: (inside ++ ['}'])))
      (hbody : BodyRun scope (amid (announcement ++ ['{']) inside ('}' :: rest)) stops)
      (hlater : HeaderRun t next later) : HeaderRun t s (stops ++ later)

/-! ## One round -/

theorem exists_span_of_keyword? {p : Problem} {scope : Text} {offset : Nat}
    (h : p.keyword? = some (scope, offset)) :
    ∃ stop, p.diagnostic.span = some (.between offset stop) := by
  cases p <;> cases h <;> exact ⟨_, rfl⟩

/-- Whatever the outcome is, it adds one function or one problem. -/
def AddsOneAt (scope : Text) (offset : Nat) (outcome : Except BadCut (Round NativeFunction)) :
    Prop :=
  ∀ round, outcome = .ok round →
    ∃ added next, round = .found added next ∧ IsOneAt scope offset added

section

variable {scope : Text} {start : Nat}

theorem addsOneAt_problem {p : Problem} (h : p.keyword? = some (scope, start)) (next : Cursor) :
    AddsOneAt scope start (.ok (.found (.problem p) next)) := by
  rintro _ ⟨⟩
  exact ⟨_, next, rfl, .problem h (exists_span_of_keyword? h)⟩

theorem addsOneAt_item (result name : Text) (params : List Parameter) (stop : Nat)
    (next : Cursor) :
    AddsOneAt scope start
      (.ok (.found (.item ⟨scope, result, name, params, .between start stop⟩) next)) := by
  rintro _ ⟨⟩
  exact ⟨_, next, rfl, .item rfl ⟨stop, rfl⟩⟩

theorem AddsOneAt.bind {β : Type} {x : Except BadCut β}
    {rounds : β → Except BadCut (Round NativeFunction)}
    (h : ∀ b, AddsOneAt scope start (rounds b)) : AddsOneAt scope start (x >>= rounds) := by
  intro round hround
  obtain ⟨b, -, hround⟩ := bind_eq_ok_iff.mp hround
  exact h b round hround

theorem addsOneAt_bodyRound (result name : Text) (paren opening closing : Nat) (s : Cursor) :
    AddsOneAt scope start (bodyRound scope result name start paren opening closing s) := by
  refine AddsOneAt.bind fun s => AddsOneAt.bind fun c? => ?_
  split
  · exact addsOneAt_problem rfl s
  · refine AddsOneAt.bind fun found => ?_
    obtain ⟨found, next⟩ := found
    cases found with
    | error cause => exact AddsOneAt.bind fun next => addsOneAt_problem rfl next
    | ok range => exact AddsOneAt.bind fun list => addsOneAt_item result name _ _ next

theorem addsOneAt_headRound (head : Text) (s : Cursor) :
    AddsOneAt scope start (headRound scope head start s) := by
  refine AddsOneAt.bind fun signature? => ?_
  cases signature? with
  | none =>
      refine AddsOneAt.bind fun found => ?_
      obtain ⟨found, next⟩ := found
      cases found with
      | error cause => exact AddsOneAt.bind fun next => addsOneAt_problem rfl next
      | ok range => exact addsOneAt_problem rfl next
  | some signature =>
      refine AddsOneAt.bind fun found => ?_
      obtain ⟨found, next⟩ := found
      cases found with
      | error cause => exact AddsOneAt.bind fun next => addsOneAt_problem rfl next
      | ok range => exact addsOneAt_bodyRound _ _ _ _ _ next

theorem addsOneAt_strayRound (c : Char) (s : Cursor) :
    AddsOneAt scope start (strayRound scope c start s) := by
  unfold strayRound
  simp only
  split
  · refine AddsOneAt.bind fun found => ?_
    obtain ⟨found, next⟩ := found
    cases found <;> exact addsOneAt_problem rfl _
  · exact addsOneAt_problem rfl _

end

section

variable {scope before rest after : Text}

theorem upToTarget?_eq_none_iff {t : Text} :
    upToTarget? headEnds 0 t = none ↔ ∀ c ∈ t, c ∉ headEnds := by
  rw [upToTarget?_eq_map_head? (by decide) (by decide), Option.map_eq_none_iff,
    List.head?_eq_none_iff, List.dropWhile_eq_nil_iff]
  simp

/-- A round over functions ends the body, or stops at the next keyword and adds what its marks
allow. -/
theorem functionRound_stop {round : Round NativeFunction}
    (h : functionRound scope (amid before rest after) = .ok round) :
    ((∃ next, (amid before rest after).passKeyword "static" = .ok (none, next)) ∧
      round = .finished) ∨
    ∃ gap behind, rest = gap ++ ("static".toList ++ behind) ∧
      IsWholeWord (gap.getLast?.or before.getLast?) behind.head? ∧
      (amid before rest after).passKeyword "static" =
        .ok (some (size (before ++ gap)), amid (before ++ gap ++ "static".toList) behind after) ∧
      (((∀ c ∈ behind, c ∉ headEnds) ∧ round = .finished) ∨
        (∃ c ∈ behind, c ∈ headEnds) ∧ ∃ added next, round = .found added next ∧
          IsOneAt scope (size (before ++ gap)) added) := by
  cases hkeyword : upToWordAt? "static".toList braceDepthAfter 0 before.getLast? rest with
  | none =>
      rw [functionRound_of_keyword_none scope hkeyword] at h
      cases h
      exact .inl ⟨⟨_, passKeyword_amid_of_eq_none rfl hkeyword⟩, rfl⟩
  | some gap =>
      obtain ⟨behind, rfl, hbefore, hbehind⟩ := eq_append_of_upToWordAt? hkeyword
      have hpass : (amid before (gap ++ ("static".toList ++ behind)) after).passKeyword "static" =
          .ok (some (size before + size gap), amid (before ++ gap ++ "static") behind after) :=
        passKeyword_amid_of_eq_some rfl hkeyword
      rw [← size_append] at hpass
      refine .inr ⟨gap, behind, rfl, ⟨hbefore, hbehind⟩, hpass, ?_⟩
      cases htarget : upToTarget? headEnds 0 behind with
      | none =>
          rw [functionRound_of_target_none scope hkeyword htarget] at h
          cases h
          exact .inl ⟨upToTarget?_eq_none_iff.mp htarget, rfl⟩
      | some found =>
          obtain ⟨head, c⟩ := found
          obtain ⟨hc, left, rfl⟩ := eq_append_of_upToTarget? htarget
          rw [functionRound_of_target scope hkeyword htarget, ← size_append] at h
          refine .inr ⟨⟨c, by simp, hc⟩, ?_⟩
          simp only at h
          split at h
          · exact addsOneAt_headRound head _ round h
          · exact addsOneAt_strayRound c _ round h

end

/-! ## Bodies -/

theorem not_isOneAt_nothing (scope : Text) (offset : Nat) : ¬ IsOneAt scope offset {} := by
  intro h
  cases h

section

variable {t scope announcement inside rest : Text}

theorem isCounted_of_no_mark {behind : Text} (offset : Nat) (h : ∀ c ∈ behind, c ∉ headEnds) :
    (⟨scope, offset, behind, {}⟩ : Stop).IsCounted := by
  refine ⟨⟨fun hone => absurd hone (not_isOneAt_nothing _ _), ?_⟩, fun _ => rfl⟩
  rintro ⟨c, hc, hmark⟩
  exact absurd hmark (h c hc)

theorem isCounted_of_mark {behind : Text} {offset : Nat} {added : Findings NativeFunction}
    (hadded : IsOneAt scope offset added) (h : ∃ c ∈ behind, c ∈ headEnds) :
    (⟨scope, offset, behind, added⟩ : Stop).IsCounted := by
  refine ⟨⟨fun _ => h, fun _ => hadded⟩, fun hnone => ?_⟩
  obtain ⟨c, hc, hmark⟩ := h
  exact absurd hmark (hnone c hc)

theorem standsIn_of_block {front gap behind : Text} {added : Findings NativeFunction}
    (hblock : IsScopeBlock t scope announcement
      (front ++ (gap ++ ("static".toList ++ behind))) rest)
    (hword : IsWholeWord (gap.getLast?.or (announcement ++ '{' :: front).getLast?) behind.head?) :
    (⟨scope, size (announcement ++ '{' :: front ++ gap), behind, added⟩ : Stop).StandsIn t := by
  have hbefore : announcement ++ '{' :: front ++ gap = announcement ++ '{' :: (front ++ gap) := by
    simp
  rw [← List.getLast?_append, hbefore] at hword
  rw [← List.append_assoc] at hblock
  exact ⟨announcement, front ++ gap, rest, hblock, hword, congrArg size hbefore⟩

/-- The reading of a body goes through stops, each of which stands in the block and counts, and
finds what they add. -/
theorem exists_bodyRun (hblock : IsScopeBlock t scope announcement inside rest) {s : Cursor}
    (hs : InsideBlock announcement inside rest s) {found : Findings NativeFunction}
    (h : collect (functionRound scope) s = .ok found) :
    ∃ stops, BodyRun scope s stops ∧ found.items = stops.flatMap (·.added.items) ∧
      found.problems = stops.flatMap (·.added.problems) ∧
      ∀ stop ∈ stops, stop.StandsIn t ∧ stop.IsCounted := by
  refine collect_induction (InsideBlock announcement inside rest)
    (motive := fun s found => ∃ stops, BodyRun scope s stops ∧
      found.items = stops.flatMap (·.added.items) ∧
      found.problems = stops.flatMap (·.added.problems) ∧
      ∀ stop ∈ stops, stop.StandsIn t ∧ stop.IsCounted) ?_ ?_ hs h
  · rintro _ ⟨front, left, rfl, rfl⟩ hround
    rcases functionRound_stop hround with
      ⟨⟨next, hkeyword⟩, -⟩ | ⟨gap, behind, rfl, hword, hkeyword, ⟨hmark, -⟩ | ⟨-, _, _, hfound, -⟩⟩
    · exact ⟨[], .done hkeyword, rfl, rfl, List.forall_mem_nil _⟩
    · refine ⟨_, .last hkeyword (rest_amid _ _ _) hround, rfl, rfl, ?_⟩
      exact List.forall_mem_singleton.mpr ⟨standsIn_of_block hblock hword,
        isCounted_of_no_mark _ hmark⟩
    · cases hfound
  · rintro _ added next ⟨front, left, rfl, rfl⟩ hround
    have hforward := remaining_lt_of_functionRound hround
    have hnext : InsideBlock announcement (front ++ left) rest next := by
      obtain ⟨part, left, rfl, -, rfl⟩ := exists_next_of_functionRound hround
      exact ⟨front ++ part, left, by simp, by simp⟩
    refine ⟨hforward, hnext, ?_⟩
    rintro later ⟨stops, hlater, hitems, hproblems, hstops⟩
    rcases functionRound_stop hround with ⟨-, hfinished⟩ |
      ⟨gap, behind, rfl, hword, hkeyword, ⟨-, hfinished⟩ | ⟨hmark, _, _, hfound, hone⟩⟩
    · cases hfinished
    · cases hfinished
    · cases hfound
      refine ⟨_, .more hkeyword (rest_amid _ _ _) hround hlater, ?_, ?_, ?_⟩
      · rw [Findings.items_append, hitems, List.flatMap_cons]
      · rw [Findings.problems_append, hproblems, List.flatMap_cons]
      · exact List.forall_mem_cons.mpr
          ⟨⟨standsIn_of_block hblock hword, isCounted_of_mark hone hmark⟩, hstops⟩

end

/-! ## Headers -/

theorem Stop.IsCounted.isSome_keyword? {stop : Stop} (h : stop.IsCounted) :
    ∀ p ∈ stop.added.problems, p.keyword?.isSome = true := by
  by_cases hmark : ∃ c ∈ stop.behind, c ∈ headEnds
  · have hone := h.isOneAt_iff.mpr hmark
    generalize stop.added = added at hone
    cases hone with
    | item hscope hspan => exact List.forall_mem_nil _
    | problem hkeyword hspan => exact List.forall_mem_singleton.mpr (by rw [hkeyword]; rfl)
  · rw [h.eq_nothing fun c hc hmem => hmark ⟨c, hc, hmem⟩]
    exact List.forall_mem_nil _

theorem filter_problems_of_isCounted {stops : List Stop} (h : ∀ stop ∈ stops, stop.IsCounted) :
    (stops.flatMap (·.added.problems)).filter (·.keyword?.isSome) =
      stops.flatMap (·.added.problems) := by
  refine List.filter_eq_self.mpr fun p hp => ?_
  obtain ⟨stop, hstop, hp⟩ := List.mem_flatMap.mp hp
  exact (h stop hstop).isSome_keyword? p hp

/-- The reading of a header goes through stops. Each of them stands in a block of its namespace,
and adds one function or one problem exactly if a mark follows it in the body. What is found are
the functions that the stops add, and the problems with functions are those that they add. -/
theorem counted_of_functionsIn {t : Text} {found : Findings NativeFunction}
    (h : functionsIn t = .ok found) :
    ∃ stops, HeaderRun t (.ofText t) stops ∧ found.items = stops.flatMap (·.added.items) ∧
      found.problems.filter (·.keyword?.isSome) = stops.flatMap (·.added.problems) ∧
      ∀ stop ∈ stops, stop.StandsIn t ∧ stop.IsCounted := by
  rw [functionsIn, ofText_eq_amid] at h
  rw [ofText_eq_amid]
  refine collect_induction (fun s => ∃ before rest, t = before ++ rest ∧ s = amid before rest [])
    (motive := fun s found => ∃ stops, HeaderRun t s stops ∧
      found.items = stops.flatMap (·.added.items) ∧
      found.problems.filter (·.keyword?.isSome) = stops.flatMap (·.added.problems) ∧
      ∀ stop ∈ stops, stop.StandsIn t ∧ stop.IsCounted) ?_ ?_ ⟨[], t, rfl, rfl⟩ h
  · intro s hs hround
    exact ⟨[], .done hround, rfl, rfl, List.forall_mem_nil _⟩
  · rintro _ batch next ⟨before, rest, rfl, rfl⟩ hround
    refine ⟨remaining_lt_of_namespaceRound hround, ?_, ?_⟩
    · obtain ⟨part, left, rfl, -, rfl⟩ := exists_next_of_namespaceRound hround
      exact ⟨before ++ part, left, by simp, rfl⟩
    · rintro later ⟨stops, hlater, hitems, hproblems, hstops⟩
      have houtcome := namespaceRound_outcome before rest []
      generalize hresult : namespaceRound (amid before rest []) = result at houtcome
      rw [hresult] at hround
      subst hround
      cases houtcome with
      | @reported part left problem hrest hpart hscope =>
          refine ⟨stops, .reported hresult hscope hlater, hitems, ?_, hstops⟩
          rw [Findings.problems_append, List.filter_append, hproblems]
          simp [Findings.problem, hscope]
      | @read part inside left scope _ hrest hpart hinside hfound =>
          subst hrest
          have hblock : IsScopeBlock (before ++ (part ++ '{' :: (inside ++ '}' :: left))) scope
              (before ++ part) inside left := ⟨by simp, hpart.append, hinside⟩
          rw [List.append_nil] at hfound
          obtain ⟨body, hbody, hbodyItems, hbodyProblems, hcounted⟩ :=
            exists_bodyRun hblock ⟨[], inside, rfl, rfl⟩ hfound
          have hfilter := filter_problems_of_isCounted fun stop hstop => (hcounted stop hstop).2
          refine ⟨body ++ stops, .read hresult hblock ?_ hbody hlater, ?_, ?_, ?_⟩
          · rw [pos_amid, List.append_assoc]
          · rw [Findings.items_append, List.flatMap_append, hbodyItems, hitems]
          · rw [Findings.problems_append, List.filter_append, List.flatMap_append, hbodyProblems,
              hfilter, hproblems]
          · exact List.forall_mem_append.mpr ⟨hcounted, hstops⟩

/-- A variable is reported, a function is read, and the keyword at the end adds nothing. -/
theorem counted_of_variable :
    let t : Text := "namespace A \x7b static int x; static void F() \x7b\x7d static \x7d"
    let found : Findings NativeFunction :=
      { items := [⟨"A", "void", "F", [], ⟨28, 46⟩⟩], problems := [.notAFunction "A" 14 26] }
    functionsIn t = .ok found ∧
      ∃ stops, HeaderRun t (.ofText t) stops ∧ found.items = stops.flatMap (·.added.items) ∧
        found.problems.filter (·.keyword?.isSome) = stops.flatMap (·.added.problems) ∧
        ∀ stop ∈ stops, stop.StandsIn t ∧ stop.IsCounted := by
  intro t found
  have hfound : functionsIn t = .ok found := by decide +kernel
  exact ⟨hfound, counted_of_functionsIn hfound⟩

/-- A keyword at the end of a body adds neither a function nor a problem. -/
theorem exists_stop_without_report :
    let t : Text := "namespace A \x7b static int counter \x7d"
    functionsIn t = .ok {} ∧ ∃ stops, HeaderRun t (.ofText t) stops ∧
      ∃ stop ∈ stops, stop.StandsIn t ∧ ¬ IsOneAt stop.scope stop.offset stop.added := by
  intro t
  let body : Cursor := amid ("namespace A ".toList ++ ['{']) " static int counter " ['}']
  have hannounces : AnnouncesScope "A" none "namespace A " :=
    @AnnouncesScope.intro "A" none [] " " " " rfl (by decide) forall_isBlank_singleton (by decide)
      forall_isBlank_singleton
  have hblock : IsScopeBlock t "A" "namespace A "
      (" ".toList ++ ("static".toList ++ " int counter ".toList)) [] :=
    ⟨by decide, hannounces, by decide⟩
  have hkeyword : body.passKeyword "static" = .ok (some 14, ⟨t, 20, 33⟩) := by decide +kernel
  have hbody : BodyRun "A" body [⟨"A", 14, " int counter ", {}⟩] :=
    .last hkeyword (by decide +kernel) (by decide +kernel)
  have hround : namespaceRound (.ofText t) = .ok (.found {} ⟨t, 34, 34⟩) := by decide +kernel
  refine ⟨by decide +kernel, _, .read hround hblock (by decide +kernel) hbody
    (.done (by decide +kernel)), _, List.mem_cons_self, ?_, not_isOneAt_nothing _ _⟩
  exact ⟨"namespace A ", " ", [], hblock, ⟨by decide, by decide⟩, by decide⟩

end HeaderBindings.Header
