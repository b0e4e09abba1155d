import HeaderBindings.Proofs.Header.OutsideComments
import HeaderBindings.Proofs.Header.Signature

/-! # Where functions come from

Whatever a header holds, each function that is read from it is written there, in a namespace block
and outside of the comments, and no part of the header is read twice. -/

namespace HeaderBindings.Header

open List Text Cursor

/-! ## Places -/

/-- A text with a namespace block: the text before the braces announces the scope, and the braces
inside of them match. -/
structure IsScopeBlock (t scope announcement inside rest : Text) : Prop where
  text_eq : t = announcement ++ '{' :: (inside ++ '}' :: rest)
  announces : AnnouncesScope scope none announcement
  balanced : Balanced '{' '}' inside

/-- The place of a function in a text without comments: the keyword as a whole word, a head with
the signature, the parameter list, white space and the body, in a block of the function's
namespace. -/
structure FunctionPlace (t : Text) (d : NativeFunction) where
  announcement : Text
  front : Text
  head : Text
  list : Text
  space : Text
  body : Text
  back : Text
  rest : Text
  block : IsScopeBlock t d.scope announcement
    (front ++ functionText head list space body ++ back) rest
  isWholeWord : IsWholeWord (announcement ++ '{' :: front).getLast? (head ++ ['(']).head?
  head_chars : ∀ c ∈ head, c ∉ headEnds
  signature : Signature head d.result d.name
  balanced_list : Balanced '(' ')' list
  isBlank_space : ∀ c ∈ space, isBlank c = true
  balanced_body : Balanced '{' '}' body
  params_eq : d.params = parameters list

namespace FunctionPlace

variable {t : Text} {d : NativeFunction} (p : FunctionPlace t d)

/-- The text of the function, from the keyword to the end of the body. -/
def text : Text := functionText p.head p.list p.space p.body

/-- What stands before the keyword. -/
def before : Text := p.announcement ++ '{' :: p.front

/-- The offset of the keyword. -/
def start : Nat := size p.before

/-- The offset behind the body. -/
def stop : Nat := p.start + size p.text

theorem start_lt_stop : p.start < p.stop := by
  refine Nat.lt_add_of_pos_right (size_pos_of_ne_nil ?_)
  unfold text functionText
  simp

theorem eq_before_append : ∃ behind, t = p.before ++ (p.text ++ behind) := by
  refine ⟨p.back ++ '}' :: p.rest, ?_⟩
  rw [before, text]
  simpa using p.block.text_eq

theorem stop_le_size : p.stop ≤ size t := by
  obtain ⟨behind, htext⟩ := p.eq_before_append
  have hsize := congrArg size htext
  rw [size_append, size_append] at hsize
  rw [stop, start]
  omega

end FunctionPlace

/-- Functions at places that follow each other from one offset to another. -/
inductive InOrder (t : Text) : Nat → List NativeFunction → Nat → Prop
  | nil {low high : Nat} (h : low ≤ high) : InOrder t low [] high
  | cons {low high : Nat} {d : NativeFunction} {later : List NativeFunction}
      (p : FunctionPlace t d) (hspan : d.span = .between p.start p.stop) (hlow : low ≤ p.start)
      (h : InOrder t p.stop later high) : InOrder t low (d :: later) high

namespace InOrder

variable {t : Text} {low mid high : Nat} {first later : List NativeFunction}

theorem of_le {low' : Nat} (hlow : low' ≤ low) (h : InOrder t low first high) :
    InOrder t low' first high := by
  cases h with
  | nil h => exact .nil (hlow.trans h)
  | cons p hspan hp h => exact .cons p hspan (hlow.trans hp) h

theorem append (hfirst : InOrder t low first mid) (hlater : InOrder t mid later high) :
    InOrder t low (first ++ later) high := by
  induction hfirst with
  | nil h => exact hlater.of_le h
  | cons p hspan hlow _ ih => exact .cons p hspan hlow (ih hlater)

end InOrder

/-! ## Blocks -/

section Block

variable {t scope announcement inside rest : Text}

/-- A cursor in the inside of a block. -/
def InsideBlock (announcement inside rest : Text) (s : Cursor) : Prop :=
  ∃ front left, inside = front ++ left ∧ s = amid (announcement ++ '{' :: front) left ('}' :: rest)

theorem exists_functionPlace {front head list space body back result name : Text} (span : Span)
    (hblock : IsScopeBlock t scope announcement
      (front ++ functionText head list space body ++ back) rest)
    (hword : IsWholeWord (announcement ++ '{' :: front).getLast? (head ++ ['(']).head?)
    (hhead : ∀ c ∈ head, c ∉ headEnds) (hsignature : signature? head = .ok (some (result, name)))
    (hlist : Balanced '(' ')' list) (hspace : ∀ c ∈ space, isBlank c = true)
    (hbody : Balanced '{' '}' body) :
    ∃ p : FunctionPlace t ⟨scope, result, name, parameters list, span⟩,
      p.start = size (announcement ++ '{' :: front) ∧
        p.stop = p.start + size (functionText head list space body) :=
  ⟨{ announcement, front, head, list, space, body, back, rest
     block := hblock
     isWholeWord := hword
     head_chars := hhead
     signature := signature_of_signature?_eq_some hsignature
     balanced_list := hlist
     isBlank_space := hspace
     balanced_body := hbody
     params_eq := rfl }, rfl, rfl⟩

/-- A round inside of a block stays there, and what it finds lies before the cursor it leaves. -/
theorem inOrder_functionRound (hblock : IsScopeBlock t scope announcement inside rest) {s : Cursor}
    (hs : InsideBlock announcement inside rest s) {batch : Findings NativeFunction} {next : Cursor}
    (h : functionRound scope s = .ok (.found batch next)) :
    next.remaining < s.remaining ∧ InsideBlock announcement inside rest next ∧
      InOrder t s.pos batch.items next.pos := by
  obtain ⟨front, left, rfl, rfl⟩ := hs
  refine ⟨remaining_lt_of_functionRound h, ?_⟩
  have houtcome := functionRound_outcome scope (announcement ++ '{' :: front) left ('}' :: rest)
  rw [h] at houtcome
  cases houtcome with
  | @reported part left' problem hleft hpart =>
      subst hleft
      refine ⟨⟨front ++ part, left', by simp, by simp⟩, .nil ?_⟩
      rw [pos_amid, pos_amid, size_append _ part]
      exact Nat.le_add_right _ _
  | @read gap head list space body left' result name hleft hword hhead hsignature hlist hspace
      hbody =>
      subst hleft
      have hbefore : announcement ++ '{' :: front ++ gap =
          announcement ++ '{' :: (front ++ gap) := by simp
      rw [← List.getLast?_append, hbefore] at hword
      have hsplit : front ++ (gap ++ functionText head list space body ++ left') =
          front ++ gap ++ functionText head list space body ++ left' := by simp
      rw [hsplit] at hblock
      obtain ⟨p, hstart, hstop⟩ := exists_functionPlace
        (.between (size (announcement ++ '{' :: front) + size gap)
          (size (announcement ++ '{' :: front) + size gap +
            size (functionText head list space body)))
        hblock hword hhead hsignature hlist hspace hbody
      have hstart : p.start = size (announcement ++ '{' :: front) + size gap := by
        rw [hstart, ← hbefore]
        exact size_append _ gap
      refine ⟨⟨front ++ (gap ++ functionText head list space body), left', by simp, by simp⟩,
        .cons p ?_ ?_ (.nil ?_)⟩
      · rw [hstop, hstart]
      · rw [hstart, pos_amid]
        exact Nat.le_add_right _ _
      · rw [hstop, hstart, pos_amid, size_append _ (gap ++ _), size_append gap, Nat.add_assoc]

theorem inOrder_collect_functionRound (hblock : IsScopeBlock t scope announcement inside rest)
    {s : Cursor} (hs : InsideBlock announcement inside rest s) {found : Findings NativeFunction}
    (h : collect (functionRound scope) s = .ok found) :
    InOrder t s.pos found.items (size (announcement ++ '{' :: inside)) := by
  refine collect_induction (InsideBlock announcement inside rest)
    (motive := fun s found => InOrder t s.pos found.items (size (announcement ++ '{' :: inside)))
    ?_ ?_ hs h
  · rintro _ ⟨front, left, rfl, rfl⟩ -
    refine .nil ?_
    simp
  · intro s batch next hs hround
    obtain ⟨hforward, hnext, hbatch⟩ := inOrder_functionRound hblock hs hround
    exact ⟨hforward, hnext, fun later hlater => hbatch.append hlater⟩

end Block

/-! ## Headers -/

theorem AnnouncesScope.append {scope part : Text} {before : Text}
    (h : AnnouncesScope scope before.getLast? part) :
    AnnouncesScope scope none (before ++ part) := by
  cases h with
  | @intro gap blanks space hbefore hne hblanks hscope hspace =>
      rw [← List.append_assoc]
      refine .intro ?_ hne hblanks hscope hspace
      rw [Option.or_none, List.getLast?_append]
      exact hbefore

/-- What a run over a header finds lies between the cursor and the end of the text. -/
theorem inOrder_collect_namespaceRound {t before rest : Text} (ht : t = before ++ rest)
    {found : Findings NativeFunction}
    (h : collect namespaceRound (amid before rest []) = .ok found) :
    InOrder t (size before) found.items (size t) := by
  refine collect_induction (fun s => ∃ before rest, t = before ++ rest ∧ s = amid before rest [])
    (motive := fun s found => InOrder t s.pos found.items (size t)) ?_ ?_ ⟨before, rest, ht, rfl⟩ h
  · rintro _ ⟨before, rest, rfl, rfl⟩ -
    refine .nil ?_
    simp
  · rintro _ batch next ⟨before, rest, rfl, rfl⟩ hround
    refine ⟨remaining_lt_of_namespaceRound hround, ?_⟩
    have houtcome := namespaceRound_outcome before rest []
    rw [hround] at houtcome
    cases houtcome with
    | @reported part left problem hrest hpart =>
        subst hrest
        refine ⟨⟨before ++ part, left, by simp, rfl⟩, fun later hlater => hlater.of_le ?_⟩
        simp
    | @read part inside left scope _ hrest hpart hinside hfound =>
        subst hrest
        have hblock : IsScopeBlock (before ++ (part ++ '{' :: (inside ++ '}' :: left))) scope
            (before ++ part) inside left :=
          ⟨by simp, hpart.append, hinside⟩
        have hbatch := inOrder_collect_functionRound hblock ⟨[], inside, rfl, by simp⟩ hfound
        refine ⟨⟨before ++ (part ++ '{' :: (inside ++ ['}'])), left, by simp, rfl⟩,
          fun later hlater => ?_⟩
        refine (hbatch.of_le ?_).append (hlater.of_le ?_)
        · simp
        · simp

/-- A header backs a function at a place: the function's span is the place, the text without
comments holds the text of the function there, and the header itself holds the keyword there,
outside of its comments. -/
structure IsBackedAt (raw : Text) (d : NativeFunction)
    (p : FunctionPlace (blankComments raw) d) : Prop where
  start_eq : d.span.start.toNat = p.start
  stop_eq : d.span.stop.toNat = p.stop
  stop_le : p.stop ≤ size raw
  slice_eq : slice p.start p.stop (blankComments raw) = .ok p.text
  keyword_eq : ∃ before behind, StandsOutside raw before "static" behind ∧ size before = p.start

theorem isBackedAt_of_span_eq {raw : Text} {d : NativeFunction}
    (p : FunctionPlace (blankComments raw) d) (hsize : size raw < 4294967296)
    (hspan : d.span = .between p.start p.stop) :
    IsBackedAt raw d p := by
  have hstop : p.stop ≤ size raw := by
    rw [← size_blankComments raw]
    exact p.stop_le_size
  obtain ⟨behind, htext⟩ := p.eq_before_append
  obtain ⟨hstart, hend⟩ := Span.toNat_between p.start_lt_stop.le (hstop.trans_lt hsize)
  refine ⟨by rw [hspan, hstart], by rw [hspan, hend], hstop, ?_, ?_⟩
  · exact slice_eq_ok p.before p.text behind (htext.trans (List.append_assoc _ _ _).symm) rfl rfl
  · have hkeyword : blankComments raw = p.before ++ ("static".toList ++
        (p.head ++ '(' :: (p.list ++ ')' :: (p.space ++ '{' :: (p.body ++ '}' :: behind))))) := by
      refine htext.trans ?_
      rw [FunctionPlace.text]
      unfold functionText
      simp
    refine exists_standsOutside (by decide) isNameChar_of_mem_static ⟨p.isWholeWord.before, ?_⟩
      hkeyword
    have hbehind := p.isWholeWord.behind
    cases hhead : p.head with
    | nil => rfl
    | cons c head =>
        rw [hhead] at hbehind
        exact hbehind

theorem InOrder.exists_place {t : Text} {low high : Nat} {found : List NativeFunction}
    (h : InOrder t low found high) : ∀ d ∈ found, ∃ p : FunctionPlace t d,
      d.span = .between p.start p.stop ∧ low ≤ p.start := by
  induction h with
  | nil => exact List.forall_mem_nil _
  | cons p hspan hlow _ ih =>
      refine List.forall_mem_cons.mpr ⟨⟨p, hspan, hlow⟩, ?_⟩
      intro e he
      obtain ⟨q, hq, hstop⟩ := ih e he
      have hstart := p.start_lt_stop
      exact ⟨q, hq, by omega⟩

/-- Functions in order have disjoint spans, one behind the other. -/
theorem InOrder.pairwise {t : Text} {low high : Nat} {found : List NativeFunction}
    (hsize : size t < 4294967296) (h : InOrder t low found high) :
    found.Pairwise fun d e => d.span.start < e.span.start ∧ d.span.stop ≤ e.span.start := by
  induction h with
  | nil => exact .nil
  | cons p hspan hlow hlater ih =>
      refine List.pairwise_cons.mpr ⟨?_, ih⟩
      intro e he
      obtain ⟨q, hq, hnext⟩ := hlater.exists_place e he
      have hp := p.start_lt_stop
      obtain ⟨hstart, hstop⟩ := Span.toNat_between hp.le (p.stop_le_size.trans_lt hsize)
      obtain ⟨hstart', -⟩ := Span.toNat_between q.start_lt_stop.le (q.stop_le_size.trans_lt hsize)
      rw [hspan, hq, UInt32.lt_iff_toNat_lt, UInt32.le_iff_toNat_le, hstart, hstop, hstart']
      exact ⟨hp.trans_le hnext, hnext⟩

/-- Every function that is read from a header is backed by it, and successive functions have
disjoint spans in the order of the header. -/
theorem isBacked_of_functionsOf {raw : Text} (hsize : size raw < 4294967296)
    {found : Findings NativeFunction} (h : functionsOf raw = .ok found) :
    (∀ d ∈ found.items, ∃ p : FunctionPlace (blankComments raw) d, IsBackedAt raw d p) ∧
      found.items.Pairwise
        fun d e => d.span.start < e.span.start ∧ d.span.stop ≤ e.span.start := by
  rw [functionsOf, functionsIn, ofText_eq_amid] at h
  have horder := inOrder_collect_namespaceRound (List.nil_append _).symm h
  refine ⟨?_, horder.pairwise ?_⟩
  · intro d hd
    obtain ⟨p, hspan, -⟩ := horder.exists_place d hd
    exact ⟨p, isBackedAt_of_span_eq p hsize hspan⟩
  · rw [size_blankComments]
    exact hsize

/-- Recovery behind an unclosed list, and comments that hold braces and keywords. -/
theorem isBacked_of_pair :
    let raw : Text := "namespace A \x7b static 9( // static\n /* é \x7b */ " ++
      "static int F(int *p) \x7b \x7b\x7d \x7d static void G(void)\x7b\x7d \x7d \x7d"
    let found : Findings NativeFunction :=
      { items := [⟨"A", "int", "F", [⟨"int*", "p"⟩], ⟨46, 73⟩⟩, ⟨"A", "void", "G", [], ⟨74, 95⟩⟩]
        problems := [.malformedHead "A" " 9" 14 22] }
    size raw < 4294967296 ∧ functionsOf raw = .ok found ∧
      (∀ d ∈ found.items, ∃ p : FunctionPlace (blankComments raw) d, IsBackedAt raw d p) ∧
      found.items.Pairwise
        fun d e => d.span.start < e.span.start ∧ d.span.stop ≤ e.span.start := by
  intro raw found
  have hsize : size raw < 4294967296 := by decide +kernel
  have hfound : functionsOf raw = .ok found := by decide +kernel
  exact ⟨hsize, hfound, isBacked_of_functionsOf hsize hfound⟩

end HeaderBindings.Header
