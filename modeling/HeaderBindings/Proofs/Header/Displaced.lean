import HeaderBindings.Proofs.Header.Findings
import HeaderBindings.Proofs.Header.Outcomes

/-! # A header behind other text

Reading goes on in the same way wherever a text stands: behind more text every round takes the
same branch, and what is found has its offsets moved by what stands before. Only the end of a word
right before the text could make a difference. -/

namespace HeaderBindings

/-! ## Moved places -/

/-- The range a number of bytes further on. -/
def Span.moved (n : Nat) (span : Span) : Span := ⟨n.toUInt32 + span.start, n.toUInt32 + span.stop⟩

/-- The remark a number of bytes further on. -/
def Label.moved (n : Nat) (label : Label) : Label :=
  { label with offset := n.toUInt32 + label.offset }

/-- The diagnostic of a problem a number of bytes further on. -/
def Diagnostic.moved (n : Nat) (d : Diagnostic) : Diagnostic :=
  { d with span := d.span.map (·.moved n), labels := d.labels.map (·.moved n) }

/-- The function a number of bytes further on. -/
def NativeFunction.moved (n : Nat) (d : NativeFunction) : NativeFunction :=
  { d with span := d.span.moved n }

theorem Span.between_add (n start stop : Nat) :
    between (n + start) (n + stop) = (between start stop).moved n := by
  rw [between, Nat.add_max_add_left]
  simp [moved, between, Nat.toUInt32, UInt32.ofNat_add]

@[simp] theorem Span.length_moved (n : Nat) (span : Span) :
    (span.moved n).length = span.length := by
  simp only [length, moved]
  grind

@[simp] theorem Span.start_moved (n : Nat) (span : Span) :
    (span.moved n).start = n.toUInt32 + span.start := rfl

@[simp] theorem Span.moved_zero (span : Span) : span.moved 0 = span := by
  simp [moved]

/-- The range moves by the whole number of bytes: neither offset loses its high bits. -/
def Span.MovesBy (n : Nat) (span : Span) : Prop :=
  (span.moved n).start.toNat = n + span.start.toNat ∧
    (span.moved n).stop.toNat = n + span.stop.toNat

theorem Span.movesBy_between {n start stop : Nat} (horder : start ≤ stop)
    (hstop : n + stop < 4294967296) : (between start stop).MovesBy n := by
  obtain ⟨hstart, hend⟩ := toNat_between horder ((Nat.le_add_left stop n).trans_lt hstop)
  obtain ⟨hstart', hend'⟩ := toNat_between (Nat.add_le_add_left horder n) hstop
  rw [MovesBy, ← between_add, hstart, hend, hstart', hend']
  exact ⟨rfl, rfl⟩

@[simp] theorem NativeFunction.moved_zero (d : NativeFunction) : d.moved 0 = d := by
  simp [moved]

namespace Diagnostic

variable (n : Nat) (d : Diagnostic)

@[simp] theorem moved_ofMessage (message : Text) :
    (ofMessage message).moved n = ofMessage message := rfl

@[simp] theorem moved_locatedAt (span : Span) :
    (d.locatedAt span).moved n = (d.moved n).locatedAt (span.moved n) := rfl

@[simp] theorem moved_labelled (text : Text) :
    (d.labelled text).moved n = (d.moved n).labelled text := by
  cases hspan : d.span with
  | none => simp [labelled, moved, hspan]
  | some span => simp [labelled, moved, hspan, Label.moved]

@[simp] theorem moved_hinting (help : Text) :
    (d.hinting help).moved n = (d.moved n).hinting help := rfl

@[simp] theorem labels_ofMessage (message : Text) : (ofMessage message).labels = [] := rfl

@[simp] theorem labels_locatedAt (span : Span) : (d.locatedAt span).labels = d.labels := rfl

@[simp] theorem labels_labelled_locatedAt (text : Text) (span : Span) :
    ((d.locatedAt span).labelled text).labels = d.labels ++ [⟨text, span.start, span.length⟩] :=
  rfl

@[simp] theorem labels_hinting (help : Text) : (d.hinting help).labels = d.labels := rfl

end Diagnostic

namespace Header

open List Text Cursor

/-! ## Related results -/

/-- A cursor over a text, and one over the same text behind another. What follows the range does
not matter. -/
inductive Displaced (front : Text) : Cursor → Cursor → Prop
  | intro (before rest after after' : Text) :
      Displaced front (amid before rest after) (amid (front ++ before) rest after')

/-- The same findings a number of bytes further on. -/
structure FindingsMoved (n : Nat) (found found' : Findings NativeFunction) : Prop where
  items : found'.items = found.items.map (·.moved n)
  diagnostics : found'.diagnostics = found.diagnostics.map (·.moved n)

variable {n : Nat}

theorem findingsMoved_nil : FindingsMoved n {} {} := ⟨rfl, rfl⟩

theorem FindingsMoved.append {a a' b b' : Findings NativeFunction} (ha : FindingsMoved n a a')
    (hb : FindingsMoved n b b') : FindingsMoved n (a ++ b) (a' ++ b') where
  items := by
    rw [Findings.items_append, Findings.items_append, List.map_append, ha.items, hb.items]
  diagnostics := by
    have happend : ∀ x y : Findings NativeFunction,
        (x ++ y).diagnostics = x.diagnostics ++ y.diagnostics := fun _ _ => List.map_append
    rw [happend, happend, List.map_append, ha.diagnostics, hb.diagnostics]

/-- Rounds that end the same way, the second behind more text. -/
abbrev KeepStep (front : Text) : Except BadCut (Round NativeFunction) →
    Except BadCut (Round NativeFunction) → Prop :=
  Agree (RoundsAgree (FindingsMoved (size front)) (Displaced front))

variable {front before rest after after' : Text}

theorem keepStep_problem {problem problem' : Problem} {next next' : Cursor}
    (h : problem'.diagnostic = problem.diagnostic.moved (size front))
    (hnext : Displaced front next next') :
    KeepStep front (.ok (.found (.problem problem) next))
      (.ok (.found (.problem problem') next')) :=
  .ok (.found ⟨rfl, congrArg ([·]) h⟩ hnext)

/-! ## Searches and recovery -/

/-- The end of a word is all that a search for a word sees of the text before it. -/
theorem upToWordAt?_congr {keyword : Text} {depthAfter : Nat → Char → Nat}
    {before? before'? : Option Char} (h : separatesWords before? = separatesWords before'?)
    (depth : Nat) (t : Text) :
    upToWordAt? keyword depthAfter depth before? t =
      upToWordAt? keyword depthAfter depth before'? t := by
  cases t with
  | nil => rfl
  | cons c t => rw [upToWordAt?, upToWordAt?, afterWord?, afterWord?, h]

theorem separatesWords_getLast?_behind (hfront : separatesWords front.getLast? = true)
    (before : Text) :
    separatesWords (front ++ before).getLast? = separatesWords before.getLast? := by
  rw [List.getLast?_append]
  cases before.getLast? with
  | none => exact hfront
  | some c => rfl

theorem upToWordAt?_behind (keyword : Text) (depthAfter : Nat → Char → Nat)
    (hfront : separatesWords front.getLast? = true) (before rest : Text) :
    upToWordAt? keyword depthAfter 0 (front ++ before).getLast? rest =
      upToWordAt? keyword depthAfter 0 before.getLast? rest :=
  upToWordAt?_congr (separatesWords_getLast?_behind hfront before) 0 rest

theorem Displaced.append (before part rest after after' : Text) :
    Displaced front (amid (before ++ part) rest after)
      (amid (front ++ before ++ part) rest after') :=
  List.append_assoc front before part ▸ .intro (before ++ part) rest after after'

theorem recover_behind {keyword : Text} {c : Char} (hc : c.utf8Size = 1) (hne : keyword ≠ [])
    (hkeyword : ∀ c ∈ keyword, isNameChar c = true) (before rest after after' : Text) :
    Agree (Displaced front) (recover keyword (size before) (amid before (c :: rest) after))
      (recover keyword (size (front ++ before)) (amid (front ++ before) (c :: rest) after')) := by
  cases hsearch : upToWordAt? keyword sameDepth 0 (some c) rest with
  | none =>
      rw [recover_amid_of_eq_none hc hne hkeyword hsearch,
        recover_amid_of_eq_none hc hne hkeyword hsearch]
      exact .ok (.append before _ [] after after')
  | some part =>
      obtain ⟨left, rfl, -, -⟩ := eq_append_of_upToWordAt? hsearch
      rw [recover_amid_of_eq_some hc hne hkeyword hsearch,
        recover_amid_of_eq_some hc hne hkeyword hsearch]
      exact .ok (.append before _ _ after after')

theorem keepStep_recover {keyword : Text} {c : Char} (hc : c.utf8Size = 1) (hne : keyword ≠ [])
    (hkeyword : ∀ c ∈ keyword, isNameChar c = true) {problem problem' : Problem}
    (h : problem'.diagnostic = problem.diagnostic.moved (size front))
    (before rest after after' : Text) :
    KeepStep front
      (recover keyword (size before) (amid before (c :: rest) after) >>=
        fun next => pure (.found (.problem problem) next))
      (recover keyword (size (front ++ before)) (amid (front ++ before) (c :: rest) after') >>=
        fun next => pure (.found (.problem problem') next)) :=
  (recover_behind hc hne hkeyword before rest after after').bind fun _ _ =>
    keepStep_problem h

/-! ## Functions -/

theorem diagnostic_functionBlock (scope name : Text) (opening : Char) (offset offset' : Nat)
    (start stop : Nat) :
    (Problem.functionBlock scope name (.unterminated opening offset') (n + start)
        (n + stop)).diagnostic =
      (Problem.functionBlock scope name (.unterminated opening offset) start
        stop).diagnostic.moved n := by
  simp [Problem.diagnostic, blockDiagnostic, Span.between_add]

theorem keepStep_bodyRound (scope result name : Text) (start : Nat)
    (before list later after after' : Text) :
    KeepStep front
      (bodyRound scope result name start (size before) (size before)
        (size before + '('.utf8Size + size list)
        (amid (before ++ '(' :: (list ++ [')'])) later after))
      (bodyRound scope result name (size front + start) (size (front ++ before))
        (size (front ++ before)) (size (front ++ before) + '('.utf8Size + size list)
        (amid (front ++ before ++ '(' :: (list ++ [')'])) later after')) := by
  obtain ⟨space, tail, rfl, hspace, htail⟩ := exists_run_append isBlank later
  rw [bodyRound, bodyRound, skipBlanks_amid hspace htail, skipBlanks_amid hspace htail]
  simp only [ok_bind, peek_amid]
  have hlist := slice_list before list space
  have hlist' := slice_list (front ++ before) list space
  have hfront : front ++ before ++ '(' :: (list ++ [')']) ++ space =
      front ++ (before ++ '(' :: (list ++ [')']) ++ space) := by simp
  rw [hfront] at hlist' ⊢
  generalize before ++ '(' :: (list ++ [')']) ++ space = passed at hlist hlist' ⊢
  by_cases hbody : tail.head? = some '{'
  · obtain ⟨left, rfl⟩ := List.head?_eq_some_iff.mp hbody
    rw [if_neg (by simp), if_neg (by simp)]
    cases hblock : blockInside? '{' '}' 0 left with
    | none =>
        rw [block_amid_of_eq_none hblock, block_amid_of_eq_none hblock, size_append front before]
        exact keepStep_recover (by decide) (by decide) isNameChar_of_mem_static
          (diagnostic_functionBlock scope name '{' _ _ start (size before)) passed left after after'
    | some inside =>
        obtain ⟨⟨left, rfl⟩, hinside⟩ := balanced_of_blockInside? (by decide) hblock
        rw [block_amid (by decide) hinside, block_amid (by decide) hinside]
        simp only [ok_bind, hlist, hlist', pure_eq_ok, List.append_assoc front]
        refine .ok (.found ⟨?_, rfl⟩ (.intro _ left after after'))
        rw [pos_amid, pos_amid, size_append front, Span.between_add]
        rfl
  · rw [if_pos hbody, if_pos hbody]
    refine keepStep_problem ?_ (.intro passed tail after after')
    simp [Problem.diagnostic, Span.between_add]

theorem keepStep_headRound (scope head : Text) (start : Nat) (before left after after' : Text) :
    KeepStep front (headRound scope head start (amid before ('(' :: left) after))
      (headRound scope head (size front + start)
        (amid (front ++ before) ('(' :: left) after')) := by
  have hproblem : (Problem.malformedHead scope head (size front + start)
      (size (front ++ before))).diagnostic =
        (Problem.malformedHead scope head start (size before)).diagnostic.moved (size front) := by
    simp [Problem.diagnostic, Span.between_add]
  rw [headRound, headRound]
  cases signature? head with
  | error cut => exact .error cut cut
  | ok signature =>
      rw [ok_bind, ok_bind]
      cases hblock : blockInside? '(' ')' 0 left with
      | none =>
          cases signature <;> simp only <;>
            rw [block_amid_of_eq_none hblock, block_amid_of_eq_none hblock] <;>
            refine keepStep_recover (by decide) (by decide) isNameChar_of_mem_static ?_ before left
              after after'
          · exact hproblem
          · rw [pos_amid, pos_amid, size_append front]
            exact diagnostic_functionBlock scope _ '(' _ _ start _
      | some list =>
          obtain ⟨⟨later, rfl⟩, hlist⟩ := balanced_of_blockInside? (by decide) hblock
          cases signature with
          | none =>
              simp only
              rw [block_amid (by decide) hlist, block_amid (by decide) hlist]
              exact keepStep_problem hproblem (.append before _ later after after')
          | some signature =>
              simp only
              rw [block_amid (by decide) hlist, block_amid (by decide) hlist, ok_bind, ok_bind]
              exact keepStep_bodyRound scope _ _ start before list later after after'

theorem keepStep_strayRound {c : Char} (hc : c ∈ headEnds) (scope : Text) (start : Nat)
    (before left after after' : Text) :
    KeepStep front (strayRound scope c start (amid before (c :: left) after))
      (strayRound scope c (size front + start) (amid (front ++ before) (c :: left) after')) := by
  have hproblem : (Problem.notAFunction scope (size front + start)
      (size (front ++ before))).diagnostic =
        (Problem.notAFunction scope start (size before)).diagnostic.moved (size front) := by
    simp [Problem.diagnostic, Span.between_add]
  have hmoved : KeepStep front
      (.ok (.found (.problem (.notAFunction scope start (size before)))
        ((amid before (c :: left) after).moveTo (size before + 1))))
      (.ok (.found (.problem (.notAFunction scope (size front + start) (size (front ++ before))))
        ((amid (front ++ before) (c :: left) after').moveTo (size (front ++ before) + 1)))) := by
    rw [moveTo_amid (utf8Size_of_mem_headEnds c hc), moveTo_amid (utf8Size_of_mem_headEnds c hc)]
    exact keepStep_problem hproblem (.append before [c] left after after')
  rw [strayRound, strayRound]
  by_cases hopen : c = '{'
  · subst hopen
    rw [if_pos rfl, if_pos rfl]
    cases hblock : blockInside? '{' '}' 0 left with
    | none =>
        rw [block_amid_of_eq_none hblock, block_amid_of_eq_none hblock]
        exact hmoved
    | some inside =>
        obtain ⟨⟨left, rfl⟩, hinside⟩ := balanced_of_blockInside? (by decide) hblock
        rw [block_amid (by decide) hinside, block_amid (by decide) hinside]
        exact keepStep_problem hproblem (.append before _ left after after')
  · rw [if_neg hopen, if_neg hopen]
    exact hmoved

theorem keepStep_functionRound (hfront : separatesWords front.getLast? = true) (scope : Text)
    {s s' : Cursor} (h : Displaced front s s') :
    KeepStep front (functionRound scope s) (functionRound scope s') := by
  obtain ⟨before, rest, after, after'⟩ := h
  have hsearch := upToWordAt?_behind "static" braceDepthAfter hfront before rest
  cases hkeyword : upToWordAt? "static" braceDepthAfter 0 before.getLast? rest with
  | none =>
      rw [functionRound_of_keyword_none scope hkeyword,
        functionRound_of_keyword_none scope (hsearch.trans hkeyword)]
      exact .ok .finished
  | some gap =>
      obtain ⟨tail, rfl, -, -⟩ := eq_append_of_upToWordAt? hkeyword
      cases htarget : upToTarget? headEnds 0 tail with
      | none =>
          rw [functionRound_of_target_none scope hkeyword htarget,
            functionRound_of_target_none scope (hsearch.trans hkeyword) htarget]
          exact .ok .finished
      | some found =>
          obtain ⟨head, c⟩ := found
          obtain ⟨hc, left, rfl⟩ := eq_append_of_upToTarget? htarget
          rw [functionRound_of_target scope hkeyword htarget,
            functionRound_of_target scope (hsearch.trans hkeyword) htarget, size_append front,
            Nat.add_assoc, List.append_assoc front]
          by_cases hparen : c = '('
          · subst hparen
            exact keepStep_headRound scope head _ _ left after after'
          · simp only [if_neg hparen]
            exact keepStep_strayRound hc scope _ _ left after after'

/-- What is found in the body of a namespace does not depend on where the body stands. -/
theorem agree_collect_functionRound_behind (hfront : separatesWords front.getLast? = true)
    (scope : Text) {s s' : Cursor} (h : Displaced front s s') :
    Agree (FindingsMoved (size front)) (collect (functionRound scope) s)
      (collect (functionRound scope) s') := by
  apply agree_collect findingsMoved_nil FindingsMoved.append
    (fun s s' => keepStep_functionRound hfront scope) ?_ h
  rintro _ _ ⟨_, _, _, _⟩
  exact ⟨fun _ _ => remaining_lt_of_functionRound, fun _ _ => remaining_lt_of_functionRound⟩

/-! ## Namespace blocks -/

theorem diagnostic_namespaceBlock (scope : Text) (cause : BlockFault) (offset' : Nat)
    (start stop : Nat) :
    (Problem.namespaceBlock scope
        (match cause with
          | .unterminated opening _ => .unterminated opening offset'
          | .expected opening _ => .expected opening offset')
        (.between (n + start) (n + stop))).diagnostic =
      (Problem.namespaceBlock scope cause (.between start stop)).diagnostic.moved n := by
  cases cause <;> simp [Problem.diagnostic, blockDiagnostic, Span.between_add]

theorem keepStep_scopeRound (hfront : separatesWords front.getLast? = true) (scope : Text)
    (start stop : Nat) (before rest after after' : Text) :
    KeepStep front (scopeRound scope (.between start stop) (amid before rest after))
      (scopeRound scope (.between (size front + start) (size front + stop))
        (amid (front ++ before) rest after')) := by
  obtain ⟨space, tail, rfl, hspace, htail⟩ := exists_run_append isBlank rest
  by_cases hbody : tail.head? = some '{'
  · obtain ⟨left, rfl⟩ := List.head?_eq_some_iff.mp hbody
    cases hblock : blockInside? '{' '}' 0 left with
    | none =>
        rw [scopeRound_of_unclosed hspace hblock, scopeRound_of_unclosed hspace hblock,
          List.append_assoc front]
        exact keepStep_recover (by decide) (by decide) isNameChar_of_mem_namespace
          (diagnostic_namespaceBlock scope (.unterminated '{' _) _ start stop) (before ++ space)
          left after after'
    | some inside =>
        obtain ⟨⟨left, rfl⟩, hinside⟩ := balanced_of_blockInside? (by decide) hblock
        rw [scopeRound_of_balanced hspace hinside, scopeRound_of_balanced hspace hinside]
        simp only [List.append_assoc front]
        refine (agree_collect_functionRound_behind hfront scope (.intro _ inside _ _)).bind
          fun found found' hfound => ?_
        exact .ok (.found hfound (.intro _ left after after'))
  · rw [scopeRound_of_ne hspace htail hbody, scopeRound_of_ne hspace htail hbody]
    exact keepStep_problem (diagnostic_namespaceBlock scope (.expected '{' _) _ start stop)
      (.append before space tail after after')

theorem keepStep_namespaceRound (hfront : separatesWords front.getLast? = true) {s s' : Cursor}
    (h : Displaced front s s') : KeepStep front (namespaceRound s) (namespaceRound s') := by
  obtain ⟨before, rest, after, after'⟩ := h
  have hsearch := upToWordAt?_behind "namespace" braceDepthAfter hfront before rest
  cases hkeyword : upToWordAt? "namespace" braceDepthAfter 0 before.getLast? rest with
  | none =>
      rw [namespaceRound_of_keyword_none hkeyword,
        namespaceRound_of_keyword_none (hsearch.trans hkeyword)]
      exact .ok .finished
  | some gap =>
      obtain ⟨blanks, scope, tail, rfl, hblanks, hstart, hscope, hend⟩ :=
        exists_announcement hkeyword
      rw [namespaceRound_of_keyword hkeyword hblanks hstart hscope hend,
        namespaceRound_of_keyword (hsearch.trans hkeyword) hblanks hstart hscope hend]
      simp only [List.append_assoc front, size_append front, Nat.add_assoc (size front)]
      split
      next hnil =>
        refine keepStep_problem ?_ ?_
        · simp [Problem.diagnostic, Span.between_add]
        · exact .intro _ tail after after'
      next => exact keepStep_scopeRound hfront scope _ _ _ tail after after'

/-- Behind another text that does not end within a word, a text is read as it is by itself. -/
theorem agree_collect_namespaceRound_behind (hfront : separatesWords front.getLast? = true)
    {s s' : Cursor} (h : Displaced front s s') :
    Agree (FindingsMoved (size front)) (collect namespaceRound s) (collect namespaceRound s') := by
  apply agree_collect findingsMoved_nil FindingsMoved.append
    (fun s s' => keepStep_namespaceRound hfront) ?_ h
  rintro _ _ ⟨_, _, _, _⟩
  exact ⟨fun _ _ => remaining_lt_of_namespaceRound, fun _ _ => remaining_lt_of_namespaceRound⟩

end Header

end HeaderBindings
