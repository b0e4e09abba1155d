import HeaderBindings.Proofs.Header.EnumProvenance

/-! # What each `enum` adds

Every text is read, and the reading stops at one word `enum` after the other. A stop adds exactly
one enumeration or exactly one problem, unless it is a forward declaration: a name follows, and then
a semicolon before any brace, where what stands in parentheses does not count. A forward declaration
adds nothing. The span of an enumeration starts at its stop, and the spans lie one behind the
other. -/

namespace HeaderBindings.Header

open List Text Cursor

/-! ## Parentheses -/

/-- A parenthesis is open at the end of the text. Whatever closes, closes what was opened last. -/
def InsideParens (front : Text) : Prop :=
  ∃ outer inner, front = outer ++ '(' :: inner ∧
    ∀ start, start <+: inner → start.foldl groupDepthAfter 1 ≠ 0

/-- A semicolon follows outside of parentheses, and no brace outside of parentheses opens before
it. -/
def SemicolonFirst (t : Text) : Prop :=
  ∃ front back, t = front ++ ';' :: back ∧ ¬ InsideParens front ∧
    ∀ outer inner, front = outer ++ '{' :: inner → InsideParens outer

theorem groupDepthAfter_add {depth : Nat} (hdepth : depth ≠ 0) (more : Nat) (c : Char) :
    groupDepthAfter (depth + more) c = groupDepthAfter depth c + more := by
  unfold groupDepthAfter
  split <;> omega

theorem foldl_groupDepthAfter_add {t : Text} {depth : Nat}
    (h : ∀ start, start <+: t → start.foldl groupDepthAfter depth ≠ 0) (more : Nat) :
    t.foldl groupDepthAfter (depth + more) = t.foldl groupDepthAfter depth + more := by
  induction t generalizing depth with
  | nil => rfl
  | cons c t ih =>
      have hdepth : depth ≠ 0 := h [] List.nil_prefix
      rw [List.foldl_cons, List.foldl_cons, groupDepthAfter_add hdepth]
      exact ih fun start hstart => h (c :: start) ((List.prefix_cons_inj c).mpr hstart)

theorem InsideParens.foldl_ne_zero {front : Text} (h : InsideParens front) (depth : Nat) :
    front.foldl groupDepthAfter depth ≠ 0 := by
  obtain ⟨outer, inner, rfl, hinner⟩ := h
  have hopen : groupDepthAfter (outer.foldl groupDepthAfter depth) '(' =
      1 + outer.foldl groupDepthAfter depth := Nat.add_comm _ 1
  have hend := hinner inner List.prefix_rfl
  rw [List.foldl_append, List.foldl_cons, hopen, foldl_groupDepthAfter_add hinner]
  omega

/-- Where every brace that opens is nested, the first of the groups that are open is one of
parentheses: seen from the end of the text, a character behind which something is open either opens
it, or the group that was opened at depth zero is still open. -/
theorem exists_paren_of_foldl_ne_zero {front : Text}
    (hnests : Nests groupDepthAfter ['{'] 0 front) (h : front.foldl groupDepthAfter 0 ≠ 0) :
    ∃ outer inner, front = outer ++ '(' :: inner ∧ outer.foldl groupDepthAfter 0 = 0 ∧
      ∀ start, start <+: inner → start.foldl groupDepthAfter 1 ≠ 0 := by
  induction front using List.reverseRecOn with
  | nil => exact absurd rfl h
  | append_singleton front c ih =>
      by_cases hfront : front.foldl groupDepthAfter 0 = 0
      · have hbrace : c ≠ '{' := by
          rintro rfl
          exact hnests front '{' [] rfl List.mem_cons_self hfront
        have hparen : c = '(' := by
          rw [List.foldl_append, List.foldl_cons, List.foldl_nil, hfront] at h
          unfold groupDepthAfter at h
          split at h
          · exact absurd rfl hbrace
          · rfl
          all_goals exact absurd rfl h
        subst hparen
        refine ⟨front, [], rfl, hfront, ?_⟩
        intro start hstart
        rw [List.prefix_nil.mp hstart]
        exact Nat.one_ne_zero
      · obtain ⟨outer, inner, rfl, houter, hinner⟩ := ih hnests.of_append hfront
        refine ⟨outer, inner ++ [c], by simp, houter, ?_⟩
        intro start hstart
        rcases List.prefix_concat_iff.mp hstart with rfl | hstart
        · rw [List.append_assoc, List.foldl_append, houter] at h
          exact h
        · exact hinner start hstart

theorem insideParens_iff_foldl_ne_zero {front : Text}
    (h : Nests groupDepthAfter ['{'] 0 front) :
    InsideParens front ↔ front.foldl groupDepthAfter 0 ≠ 0 := by
  constructor
  · intro hinside
    exact hinside.foldl_ne_zero 0
  · intro hdepth
    obtain ⟨outer, inner, hfront, -, hinner⟩ := exists_paren_of_foldl_ne_zero h hdepth
    exact ⟨outer, inner, hfront, hinner⟩

theorem nests_brace_iff {front : Text} :
    Nests groupDepthAfter ['{'] 0 front ↔
      ∀ outer inner, front = outer ++ '{' :: inner → InsideParens outer := by
  constructor
  · rintro h outer inner rfl
    exact (insideParens_iff_foldl_ne_zero h.of_append).mpr
      (h outer '{' inner rfl List.mem_cons_self)
  · intro h outer c inner hfront hc
    obtain rfl := List.mem_singleton.mp hc
    exact (h outer inner hfront).foldl_ne_zero 0

/-! ## Forward declarations -/

/-- The search for a brace or a semicolon finds a semicolon exactly if one stands outside of all
groups and no brace opens outside of them before it. -/
theorem exists_upToTarget?_semicolon_iff {depth : Nat} {t : Text} :
    (∃ part, upToTarget? ['{', ';'] depth t = some (part, ';')) ↔
      ∃ front back, t = front ++ ';' :: back ∧ Nests groupDepthAfter ['{'] depth front ∧
        front.foldl groupDepthAfter depth = 0 := by
  constructor
  · rintro ⟨part, h⟩
    obtain ⟨-, back, rfl⟩ := eq_append_of_upToTarget? h
    have hpassed := isPassed_of_upToTarget? h
    refine ⟨part, back, rfl, ?_, hpassed.closed⟩
    intro outer c inner hpart hc
    obtain rfl := List.mem_singleton.mp hc
    exact hpassed.nests outer '{' inner hpart List.mem_cons_self
  · rintro ⟨front, back, rfl, hnests, hclosed⟩
    induction front generalizing depth with
    | nil =>
        obtain rfl : depth = 0 := hclosed
        exact ⟨[], rfl⟩
    | cons c front ih =>
        obtain ⟨hc, hnests⟩ := nests_cons_iff.mp hnests
        rw [List.cons_append, upToTarget?]
        split
        next hfound =>
          rw [Bool.and_eq_true, beq_iff_eq, List.contains_iff_mem] at hfound
          rcases List.mem_pair.mp hfound.2 with rfl | rfl
          · exact absurd hfound.1 (hc List.mem_cons_self)
          · exact ⟨[], rfl⟩
        next =>
          obtain ⟨part, hpart⟩ := ih hnests hclosed
          exact ⟨c :: part, by rw [hpart]; rfl⟩

theorem semicolonFirst_iff {t : Text} :
    SemicolonFirst t ↔ ∃ part, upToTarget? ['{', ';'] 0 t = some (part, ';') := by
  rw [exists_upToTarget?_semicolon_iff]
  refine exists_congr fun front => exists_congr fun back => and_congr_right fun _ => ?_
  rw [← nests_brace_iff, and_comm]
  refine and_congr_right fun hnests => ?_
  rw [insideParens_iff_foldl_ne_zero hnests, not_not]

theorem not_semicolonFirst {t : Text}
    (h : ∀ part, upToTarget? ['{', ';'] 0 t ≠ some (part, ';')) : ¬ SemicolonFirst t := by
  intro hfirst
  obtain ⟨part, hpart⟩ := semicolonFirst_iff.mp hfirst
  exact h part hpart

theorem semicolonFirst_append_iff {t : Text}
    (h : ∀ c ∈ t, isNameChar c = true ∨ isBlank c = true) (rest : Text) :
    SemicolonFirst (t ++ rest) ↔ SemicolonFirst rest := by
  have hmarks : ∀ c ∈ t, c ∉ ['{', ';'] ∧ c ∉ ['{', '(', '}', ')'] := by
    intro c hc
    rcases h c hc with hname | hblank
    · exact not_mem_marks (.inl hname)
    · exact not_mem_marks (.inr (.inl hblank))
  rw [semicolonFirst_iff, semicolonFirst_iff, upToTarget?_pass hmarks]
  constructor
  · rintro ⟨part, hpart⟩
    obtain ⟨⟨tail, c⟩, htail, heq⟩ := Option.map_eq_some_iff.mp hpart
    cases heq
    exact ⟨tail, htail⟩
  · rintro ⟨part, hpart⟩
    exact ⟨t ++ part, by rw [hpart]; rfl⟩

theorem LeadsToName.forall_mem {name head : Text} (h : LeadsToName name head) :
    ∀ c ∈ head, isNameChar c = true ∨ isBlank c = true := by
  cases h with
  | plain hblanks hname => exact fun c hc => .inr (hblanks c hc)
  | keyed hblanks hkey hne hspace =>
      intro c hc
      rcases List.mem_append.mp hc with hc | hc
      · exact .inr (hblanks c hc)
      · rcases List.mem_append.mp hc with hc | hc
        · exact .inl ((isName_of_isKey hkey).isNameChar c hc)
        · exact .inr (hspace c hc)

/-- A name follows, perhaps behind `class` or `struct`. -/
def NameFollows (t : Text) : Prop :=
  ∃ head name left, t = head ++ (name ++ left) ∧ LeadsToName name head ∧ IsName name ∧
    ∀ c ∈ left.head?, isNameChar c = false

/-- A name follows, and then a semicolon before any brace. -/
structure ForwardDeclares (t : Text) : Prop where
  nameFollows : NameFollows t
  semicolonFirst : SemicolonFirst t

/-! ## Stops -/

/-- A word `enum` at which the reading of a text stops: its offset, what follows it, and what it
adds to the findings. -/
structure EnumStop where
  offset : Nat
  behind : Text
  added : Findings EnumBlock

/-- The word stands in the text as a whole word. -/
def EnumStop.StandsIn (t : Text) (stop : EnumStop) : Prop :=
  ∃ front, t = front ++ ("enum".toList ++ stop.behind) ∧
    IsWholeWord front.getLast? stop.behind.head? ∧ stop.offset = size front

/-- One enumeration whose span starts at the offset, or one problem. -/
inductive IsOneEnumAt (offset : Nat) : Findings EnumBlock → Prop
  | item {e : EnumBlock} (hspan : ∃ stop, e.span = .between offset stop) :
      IsOneEnumAt offset (.item e)
  | problem (p : Problem) : IsOneEnumAt offset (.problem p)

/-- A stop adds nothing if it declares forward, and else one enumeration or one problem. -/
structure EnumStop.IsCounted (stop : EnumStop) : Prop where
  eq_nothing : ForwardDeclares stop.behind → stop.added = {}
  isOneEnumAt : ¬ ForwardDeclares stop.behind → IsOneEnumAt stop.offset stop.added

/-- The stops of the reading of a text, from a cursor on. -/
inductive EnumRun : Cursor → List EnumStop → Prop
  | done {s next : Cursor} (hword : s.passWord "enum" = .ok (none, next)) : EnumRun s []
  | more {s next later : Cursor} {offset : Nat} {behind : Text} {added : Findings EnumBlock}
      {stops : List EnumStop} (hword : s.passWord "enum" = .ok (some offset, next))
      (hbehind : next.rest = .ok behind) (hround : enumRound s = .ok (.found added later))
      (hlater : EnumRun later stops) : EnumRun s (⟨offset, behind, added⟩ :: stops)

section

variable {before rest after : Text}

/-- Behind a name, a semicolon that comes first adds nothing, and everything else adds one
enumeration or one problem. -/
theorem blockRound_stop {name : Text} {place : Span} {start : Nat} {round : Round EnumBlock}
    (h : blockRound name place start (amid before rest after) = .ok round) :
    ∃ added next, round = .found added next ∧ (SemicolonFirst rest → added = {}) ∧
      (¬ SemicolonFirst rest → IsOneEnumAt start added) := by
  unfold blockRound at h
  cases htarget : upToTarget? ['{', ';'] 0 rest with
  | none =>
      rw [upToAny_amid_of_eq_none htarget] at h
      cases h
      have hfirst : ¬ SemicolonFirst rest := not_semicolonFirst (by simp [htarget])
      exact ⟨_, _, rfl, fun hother => absurd hother hfirst, fun _ => .problem _⟩
  | some found =>
      obtain ⟨clause, c⟩ := found
      obtain ⟨hc, left, rfl⟩ := eq_append_of_upToTarget? htarget
      rw [upToAny_amid htarget, ok_bind] at h
      rcases List.mem_pair.mp hc with rfl | rfl
      · have hfirst : ¬ SemicolonFirst (clause ++ '{' :: left) :=
          not_semicolonFirst (by simp [htarget])
        obtain ⟨⟨found, next⟩, -, h⟩ := bind_eq_ok_iff.mp h
        cases found with
        | error cause =>
            cases h
            exact ⟨_, _, rfl, fun hother => absurd hother hfirst, fun _ => .problem _⟩
        | ok range =>
            simp only [bind_eq_ok_iff] at h
            obtain ⟨passed, -, ⟨accepted, next⟩, -, body, -, h⟩ := h
            cases h
            exact ⟨_, _, rfl, fun hother => absurd hother hfirst, fun _ => .item ⟨_, rfl⟩⟩
      · cases h
        refine ⟨_, _, rfl, fun _ => rfl, fun hother => absurd ?_ hother⟩
        exact semicolonFirst_iff.mpr ⟨clause, htarget⟩

theorem enumRound_stop {round : Round EnumBlock}
    (h : enumRound (amid before rest after) = .ok round) :
    ((∃ next, (amid before rest after).passWord "enum" = .ok (none, next)) ∧
      round = .finished) ∨
    ∃ gap behind added next, rest = gap ++ ("enum".toList ++ behind) ∧
      IsWholeWord (before ++ gap).getLast? behind.head? ∧
      (amid before rest after).passWord "enum" =
        .ok (some (size (before ++ gap)), amid (before ++ gap ++ "enum".toList) behind after) ∧
      round = .found added next ∧
      (⟨size (before ++ gap), behind, added⟩ : EnumStop).IsCounted := by
  cases hword : upToWordAt? "enum".toList sameDepth 0 before.getLast? rest with
  | none =>
      have hpass : (amid before rest after).passWord "enum" =
          .ok (none, amid (before ++ rest) [] after) :=
        passWord_amid_of_eq_none (by decide) isNameChar_of_mem_enum hword
      rw [enumRound, hpass] at h
      cases h
      exact .inl ⟨⟨_, hpass⟩, rfl⟩
  | some gap =>
      obtain ⟨behind, rfl, hbefore, hbehind⟩ := eq_append_of_upToWordAt? hword
      have hpass : (amid before (gap ++ ("enum".toList ++ behind)) after).passWord "enum" =
          .ok (some (size (before ++ gap)), amid (before ++ gap ++ "enum".toList) behind after) :=
        passWord_amid_of_eq_some (by decide) isNameChar_of_mem_enum hword
      rw [← List.getLast?_append] at hbefore
      rw [enumRound, hpass, ok_bind] at h
      simp only at h
      obtain ⟨⟨found?, s⟩, hname, h⟩ := bind_eq_ok_iff.mp h
      cases found? with
      | none =>
          cases h
          refine .inr ⟨gap, behind, _, _, rfl, ⟨hbefore, hbehind⟩, hpass, rfl, ?_,
            fun _ => .problem _⟩
          rintro ⟨⟨head, name, left, rfl, hleads, hisName, hend⟩, -⟩
          obtain ⟨place, hread⟩ := exists_enumName_eq_ok hleads hisName hend
            (before ++ gap ++ "enum".toList) after
          rw [hread] at hname
          cases hname
      | some found =>
          obtain ⟨name, place⟩ := found
          obtain ⟨head, left, rfl, hleads, hisName, hend, rfl⟩ := leadsToName_of_enumName hname
          change blockRound name place (size (before ++ gap)) _ = _ at h
          obtain ⟨added, next, rfl, hnothing, hone⟩ := blockRound_stop h
          have hfollows : NameFollows (head ++ (name ++ left)) :=
            ⟨head, name, left, rfl, hleads, hisName, hend⟩
          have hfirst : SemicolonFirst (head ++ (name ++ left)) ↔ SemicolonFirst left := by
            rw [semicolonFirst_append_iff hleads.forall_mem,
              semicolonFirst_append_iff fun c hc => .inl (hisName.isNameChar c hc)]
          refine .inr ⟨gap, _, added, next, rfl, ⟨hbefore, hbehind⟩, hpass, rfl, ?_, ?_⟩
          · exact fun hforward => hnothing (hfirst.mp hforward.semicolonFirst)
          · exact fun hother => hone fun hsemicolon => hother ⟨hfollows, hfirst.mpr hsemicolon⟩

end

/-- The reading of a text goes through stops, each of which stands in the text and counts, and
finds what they add. -/
theorem exists_enumRun {t : Text} {found : Findings EnumBlock} (h : enumsIn t = .ok found) :
    ∃ stops, EnumRun (.ofText t) stops ∧ found.items = stops.flatMap (·.added.items) ∧
      found.problems = stops.flatMap (·.added.problems) ∧
      ∀ stop ∈ stops, stop.StandsIn t ∧ stop.IsCounted := by
  rw [enumsIn, ofText_eq_amid] at h
  rw [ofText_eq_amid]
  refine collect_induction (fun s => ∃ before rest, t = before ++ rest ∧ s = amid before rest [])
    (motive := fun s found => ∃ stops, EnumRun s stops ∧
      found.items = stops.flatMap (·.added.items) ∧
      found.problems = stops.flatMap (·.added.problems) ∧
      ∀ stop ∈ stops, stop.StandsIn t ∧ stop.IsCounted) ?_ ?_ ⟨[], t, rfl, rfl⟩ h
  · rintro _ ⟨before, rest, rfl, rfl⟩ hround
    rcases enumRound_stop hround with ⟨⟨next, hword⟩, -⟩ | ⟨_, _, _, _, -, -, -, hfound, -⟩
    · exact ⟨[], .done hword, rfl, rfl, List.forall_mem_nil _⟩
    · cases hfound
  · rintro _ added next ⟨before, rest, rfl, rfl⟩ hround
    obtain ⟨part, left, hrest, hpart, rfl⟩ := exists_next_of_enumRound hround
    refine ⟨remaining_amid_lt hrest hpart, ⟨before ++ part, left, by simp [hrest], rfl⟩, ?_⟩
    rintro later ⟨stops, hlater, hitems, hproblems, hstops⟩
    rcases enumRound_stop hround with
      ⟨-, hfinished⟩ | ⟨gap, behind, _, _, rfl, hwhole, hword, hfound, hcounted⟩
    · cases hfinished
    · cases hfound
      refine ⟨_, .more hword (rest_amid _ _ _) hround hlater, ?_, ?_, ?_⟩
      · rw [Findings.items_append, hitems, List.flatMap_cons]
      · rw [Findings.problems_append, hproblems, List.flatMap_cons]
      · refine List.forall_mem_cons.mpr ⟨⟨⟨before ++ gap, ?_, hwhole, rfl⟩, hcounted⟩, hstops⟩
        exact (List.append_assoc _ _ _).symm

/-! ## Spans -/

theorem EnumAt.start_lt_stop {t : Text} {e : EnumBlock} {start stop : Nat}
    (h : EnumAt t e start stop) : start < stop := by
  obtain ⟨before, text, behind, -, -, -, rfl, -, p, -⟩ := h
  have htext : text ≠ [] := by
    rw [p.text_eq]
    exact List.append_ne_nil_of_left_ne_nil (by decide) _
  exact Nat.lt_add_of_pos_right (size_pos_of_ne_nil htext)

theorem EnumAt.span_eq {t : Text} {e : EnumBlock} {start stop : Nat}
    (h : EnumAt t e start stop) : e.span = .between start stop := by
  obtain ⟨_, _, _, -, -, -, -, hspan, -⟩ := h
  exact hspan

theorem le_of_successive_enumAt {t : Text} {low high : Nat} {items : List EnumBlock}
    (h : Successive (EnumAt t) low items high) : low ≤ high := by
  induction h with
  | nil hle => exact hle
  | cons hplace hlow _ ih =>
      have hstart := hplace.start_lt_stop
      omega

theorem span_of_successive_enumAt {t : Text} {low high : Nat} {items : List EnumBlock}
    (hhigh : high < 4294967296) (h : Successive (EnumAt t) low items high) :
    ∀ e ∈ items, low ≤ e.span.start.toNat ∧ e.span.start < e.span.stop ∧
      e.span.stop.toNat ≤ high := by
  induction h with
  | nil => exact List.forall_mem_nil _
  | @cons low high start stop e later hplace hlow hlater ih =>
      have hless := hplace.start_lt_stop
      have hstop := le_of_successive_enumAt hlater
      obtain ⟨hstart, hend⟩ := Span.toNat_between hless.le (hstop.trans_lt hhigh)
      refine List.forall_mem_cons.mpr ⟨?_, fun d hd => ?_⟩
      · rw [hplace.span_eq, UInt32.lt_iff_toNat_lt, hstart, hend]
        exact ⟨hlow, hless, hstop⟩
      · obtain ⟨hlow', hspan⟩ := ih hhigh d hd
        exact ⟨by omega, hspan⟩

theorem pairwise_of_successive_enumAt {t : Text} {low high : Nat} {items : List EnumBlock}
    (hhigh : high < 4294967296) (h : Successive (EnumAt t) low items high) :
    items.Pairwise fun d e => d.span.stop ≤ e.span.start := by
  induction h with
  | nil => exact .nil
  | @cons low high start stop e later hplace hlow hlater ih =>
      have hstop := (le_of_successive_enumAt hlater).trans_lt hhigh
      refine List.pairwise_cons.mpr ⟨fun d hd => ?_, ih hhigh⟩
      obtain ⟨hstart, -⟩ := span_of_successive_enumAt hhigh hlater d hd
      rw [hplace.span_eq, UInt32.le_iff_toNat_le,
        (Span.toNat_between hplace.start_lt_stop.le hstop).2]
      exact hstart

theorem EnumStop.StandsIn.offset_le {t : Text} {stop : EnumStop} (h : stop.StandsIn t) :
    stop.offset ≤ size t := by
  obtain ⟨front, rfl, -, hoffset⟩ := h
  rw [hoffset, size_append]
  exact Nat.le_add_right _ _

/-- What a stop adds is nothing, a problem, or an enumeration whose span starts there. -/
theorem EnumStop.IsCounted.start_eq {stop : EnumStop} (h : stop.IsCounted)
    (hoffset : stop.offset < 4294967296) :
    ∀ e ∈ stop.added.items, e.span.start.toNat = stop.offset := by
  by_cases hforward : ForwardDeclares stop.behind
  · rw [h.eq_nothing hforward]
    exact List.forall_mem_nil _
  · have hone := h.isOneEnumAt hforward
    generalize stop.added = added at hone
    cases hone with
    | problem p => exact List.forall_mem_nil _
    | item hspan =>
        obtain ⟨_, hspan⟩ := hspan
        refine List.forall_mem_singleton.mpr ?_
        rw [hspan]
        exact UInt32.toNat_ofNat_of_lt' hoffset

/-- The reading of a header goes through stops, and finds what they add. -/
structure ReadsEnums (raw : Text) (found : Findings EnumBlock) (stops : List EnumStop) :
    Prop where
  run : EnumRun (.ofText (blankComments raw)) stops
  items_eq : found.items = stops.flatMap (·.added.items)
  problems_eq : found.problems = stops.flatMap (·.added.problems)
  standsIn : ∀ stop ∈ stops, stop.StandsIn (blankComments raw)
  outside : ∀ stop ∈ stops, ∃ before behind,
    StandsOutside raw before "enum" behind ∧ size before = stop.offset
  isCounted : ∀ stop ∈ stops, stop.IsCounted
  start_eq : ∀ stop ∈ stops, ∀ e ∈ stop.added.items, e.span.start.toNat = stop.offset
  inside : ∀ e ∈ found.items, e.span.start < e.span.stop ∧ e.span.stop.toNat ≤ size raw
  disjoint : found.items.Pairwise fun d e => d.span.stop ≤ e.span.start

/-- Every header of the expected size is read to the end. Each word `enum` at which the reading
stops adds one enumeration or one problem, or it is a forward declaration, and the spans of the
enumerations start at these words and lie in the header one behind the other. -/
theorem exists_readsEnums {raw : Text} (hsize : size raw < 4294967296) :
    ∃ found stops, enumsOf raw = .ok found ∧ ReadsEnums raw found stops := by
  obtain ⟨found, hfound⟩ := exists_enumsOf_eq_ok raw
  obtain ⟨stops, hrun, hitems, hproblems, hstops⟩ := exists_enumRun hfound
  have hsuccessive := successive_of_enumsIn hfound
  rw [size_blankComments] at hsuccessive
  refine ⟨found, stops, hfound, hrun, hitems, hproblems, fun stop hstop => (hstops stop hstop).1,
    ?_, fun stop hstop => (hstops stop hstop).2, ?_, ?_,
    pairwise_of_successive_enumAt hsize hsuccessive⟩
  · intro stop hstop
    obtain ⟨front, htext, hwhole, hoffset⟩ := (hstops stop hstop).1
    rw [hoffset]
    exact exists_standsOutside (by decide) isNameChar_of_mem_enum hwhole htext
  · intro stop hstop
    obtain ⟨hstands, hcounted⟩ := hstops stop hstop
    have hoffset := hstands.offset_le
    rw [size_blankComments] at hoffset
    exact hcounted.start_eq (hoffset.trans_lt hsize)
  · intro e he
    exact (span_of_successive_enumAt hsize hsuccessive e he).2

/-- A forward declaration with a brace in its parentheses, a name that is missing, a block that is
never closed with an enumeration in it, and a word in a comment. -/
theorem exists_readsEnums_of_malformed :
    let raw : Text :=
      "enum é; enum A (\x7b;\x7d) ü; /* enum */ enum B \x7b ß enum class C \x7b X \x7d; enum D"
    let found : Findings EnumBlock :=
      { items := [⟨"C", [⟨"X", false, "x"⟩], ⟨49, 68⟩⟩]
        problems := [.unnamedEnum 0 5, .malformedEnum "B" (.unterminated '{' 44),
          .enumWithoutBody "D" ⟨74, 75⟩] }
    size raw < 4294967296 ∧ enumsOf raw = .ok found ∧ ∃ stops, ReadsEnums raw found stops := by
  intro raw found
  have hsize : size raw < 4294967296 := by decide +kernel
  have hfound : enumsOf raw = .ok found := by decide +kernel
  obtain ⟨_, stops, hread, hstops⟩ := exists_readsEnums hsize
  rw [hfound] at hread
  cases hread
  exact ⟨hsize, hfound, stops, hstops⟩

end HeaderBindings.Header
