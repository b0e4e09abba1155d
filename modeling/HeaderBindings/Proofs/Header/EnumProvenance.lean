import HeaderBindings.Proofs.Header.Totality

/-! # Where enumerations come from

Every enumeration that is read from a text is written there: the word `enum`, perhaps `class` or
`struct`, the name, a clause up to the first brace, and a body in which the braces match. The
enumerations stand one behind the other. The clause may be any text, so what is read need not be
the definition of an enumeration; it is one if nothing but white space stands before the body, or
the clause starts with a colon. -/

namespace HeaderBindings.Header

open List Text Cursor

/-! ## The parts of an enumeration -/

/-- White space, and perhaps one semicolon behind it. -/
def IsEnumEnd (t : Text) : Prop :=
  ∃ blanks, (∀ c ∈ blanks, isBlank c = true) ∧ (t = blanks ∨ t = blanks ++ [';'])

/-- The parts of the text of an enumeration. In the clause every brace that opens and every
semicolon is nested. -/
structure EnumParts (name text : Text) where
  head : Text
  clause : Text
  body : Text
  back : Text
  text_eq : text = "enum".toList ++ (head ++ (name ++ (clause ++ '{' :: (body ++ '}' :: back))))
  leads : LeadsToName name head
  isName : IsName name
  ends_name : ∀ c ∈ clause.head?, isNameChar c = false
  isPassed_clause : IsPassed ['{', ';'] 0 clause
  balanced : Balanced '{' '}' body
  isEnd : IsEnumEnd back

/-- The body follows the name, or a clause does that starts with a colon. -/
def StartsBody (clause : Text) : Prop :=
  (∀ c ∈ clause, isBlank c = true) ∨
    ∃ blanks base, clause = blanks ++ ':' :: base ∧ ∀ c ∈ blanks, isBlank c = true

/-- The text of a definition of an enumeration. -/
def IsEnumDefinition (text : Text) : Prop :=
  ∃ name, ∃ p : EnumParts name text, StartsBody p.clause

/-! ## One reading of a text -/

section

variable {run run' rest rest' name name' text : Text} {test : Char → Bool}

theorem eq_of_run_append_eq (hrun : ∀ c ∈ run, test c = true)
    (hrest : ∀ c ∈ rest.head?, test c = false) (hrun' : ∀ c ∈ run', test c = true)
    (hrest' : ∀ c ∈ rest'.head?, test c = false) (h : run ++ rest = run' ++ rest') :
    run = run' ∧ rest = rest' := by
  constructor
  · rw [← takeWhile_append_of_head? hrun hrest, h, takeWhile_append_of_head? hrun' hrest']
  · rw [← dropWhile_append_of_head? hrun hrest, h, dropWhile_append_of_head? hrun' hrest']

theorem LeadsToName.unique {head head' : Text} (h : LeadsToName name head)
    (h' : LeadsToName name' head') (hname : IsName name) (hname' : IsName name')
    (hrest : ∀ c ∈ rest.head?, isNameChar c = false)
    (hrest' : ∀ c ∈ rest'.head?, isNameChar c = false)
    (heq : head ++ (name ++ rest) = head' ++ (name' ++ rest')) : name = name' ∧ rest = rest' := by
  cases h with
  | plain hblanks hplain =>
      cases h' with
      | plain hblanks' hplain' =>
          obtain ⟨-, heq⟩ := eq_of_run_append_eq hblanks (hname.isBlank_of_mem_head?_append rest)
            hblanks' (hname'.isBlank_of_mem_head?_append rest') heq
          exact eq_of_run_append_eq hname.isNameChar hrest hname'.isNameChar hrest' heq
      | @keyed blanks' key space hblanks' hkey hne hspace =>
          have hkeyName := isName_of_isKey hkey
          rw [List.append_assoc, List.append_assoc] at heq
          obtain ⟨-, heq⟩ := eq_of_run_append_eq hblanks (hname.isBlank_of_mem_head?_append rest)
            hblanks' (hkeyName.isBlank_of_mem_head?_append _) heq
          obtain ⟨rfl, -⟩ := eq_of_run_append_eq hname.isNameChar hrest hkeyName.isNameChar
            (head?_append_of_isBlank hne hspace _) heq
          exact absurd hkey (not_or.mpr hplain)
  | @keyed blanks key space hblanks hkey hne hspace =>
      have hkeyName := isName_of_isKey hkey
      rw [List.append_assoc, List.append_assoc] at heq
      cases h' with
      | plain hblanks' hplain' =>
          obtain ⟨-, heq⟩ := eq_of_run_append_eq hblanks (hkeyName.isBlank_of_mem_head?_append _)
            hblanks' (hname'.isBlank_of_mem_head?_append rest') heq
          obtain ⟨rfl, -⟩ := eq_of_run_append_eq hkeyName.isNameChar
            (head?_append_of_isBlank hne hspace _) hname'.isNameChar hrest' heq
          exact absurd hkey (not_or.mpr hplain')
      | @keyed blanks' key' space' hblanks' hkey' hne' hspace' =>
          have hkeyName' := isName_of_isKey hkey'
          rw [List.append_assoc, List.append_assoc] at heq
          obtain ⟨-, heq⟩ := eq_of_run_append_eq hblanks (hkeyName.isBlank_of_mem_head?_append _)
            hblanks' (hkeyName'.isBlank_of_mem_head?_append _) heq
          obtain ⟨-, heq⟩ := eq_of_run_append_eq hkeyName.isNameChar
            (head?_append_of_isBlank hne hspace _) hkeyName'.isNameChar
            (head?_append_of_isBlank hne' hspace' _) heq
          obtain ⟨-, heq⟩ := eq_of_run_append_eq hspace (hname.isBlank_of_mem_head?_append rest)
            hspace' (hname'.isBlank_of_mem_head?_append rest') heq
          exact eq_of_run_append_eq hname.isNameChar hrest hname'.isNameChar hrest' heq

theorem isNameChar_of_mem_head?_clause {clause : Text}
    (h : ∀ c ∈ clause.head?, isNameChar c = false) (rest : Text) :
    ∀ c ∈ (clause ++ '{' :: rest).head?, isNameChar c = false := by
  cases clause with
  | nil =>
      rintro _ ⟨⟩
      decide
  | cons c clause => exact h

namespace EnumParts

/-- Two readings of a text agree: both clauses end at the first brace that is not nested. -/
theorem name_eq_and_clause_eq (p : EnumParts name text) (p' : EnumParts name' text) :
    name = name' ∧ p.clause = p'.clause := by
  have heq := List.append_cancel_left (p.text_eq.symm.trans p'.text_eq)
  obtain ⟨hname, heq⟩ := p.leads.unique p'.leads p.isName p'.isName
    (isNameChar_of_mem_head?_clause p.ends_name _)
    (isNameChar_of_mem_head?_clause p'.ends_name _) heq
  have hbrace : '{' ∈ ['{', ';'] := List.mem_cons_self
  have hsearch := upToTarget?_of_isPassed hbrace p.isPassed_clause (p.body ++ '}' :: p.back)
  rw [heq, upToTarget?_of_isPassed hbrace p'.isPassed_clause] at hsearch
  exact ⟨hname, (Prod.mk.inj (Option.some.inj hsearch)).1.symm⟩

/-- Whether a text is a definition of an enumeration can be seen from any reading of it. -/
theorem isEnumDefinition_iff (p : EnumParts name text) :
    IsEnumDefinition text ↔ StartsBody p.clause := by
  constructor
  · rintro ⟨name', p', h⟩
    rw [(p.name_eq_and_clause_eq p').2]
    exact h
  · intro h
    exact ⟨name, p, h⟩

end EnumParts

end

/-! ## Rounds -/

section

variable {before rest after : Text}

theorem skipBlanks_name_cases (before rest after : Text) :
    (∃ next, ((amid before rest after).skipBlanks >>= Cursor.name) = .ok (none, next)) ∨
      ∃ blanks name place left, rest = blanks ++ (name ++ left) ∧
        (∀ c ∈ blanks, isBlank c = true) ∧ IsName name ∧
        (∀ c ∈ left.head?, isNameChar c = false) ∧
        ((amid before rest after).skipBlanks >>= Cursor.name) =
          .ok (some (name, place), amid (before ++ (blanks ++ name)) left after) := by
  obtain ⟨blanks, tail, rfl, hblanks, htail⟩ := exists_run_append isBlank rest
  rw [skipBlanks_amid hblanks htail, ok_bind]
  obtain ⟨name, left, rfl, hname, hend⟩ := exists_run_append isNameChar tail
  by_cases hne : name = []
  · left
    subst hne
    exact ⟨_, name_amid_of_head? hend⟩
  · right
    have hread : (amid (before ++ blanks) (name ++ left) after).name =
        .ok (some (name, .between (size (before ++ blanks)) (size (before ++ blanks) + size name)),
          amid (before ++ blanks ++ name) left after) := name_amid hne hname hend
    rw [List.append_assoc] at hread
    exact ⟨blanks, name, _, left, rfl, hblanks, ⟨hne, hname⟩, hend, hread⟩

theorem ne_nil_of_head?_append {gap name : Text} (hname : IsName name)
    (h : ∀ c ∈ (gap ++ (name ++ rest)).head?, isNameChar c = false) : gap ≠ [] := by
  rintro rfl
  obtain ⟨c, name, rfl⟩ := List.exists_cons_of_ne_nil hname.ne_nil
  have hc := h c rfl
  rw [hname.isNameChar c List.mem_cons_self] at hc
  cases hc

/-- A name that was read is led to by what stands before it. -/
theorem leadsToName_of_enumName {name : Text} {place : Span} {next : Cursor}
    (h : enumName (amid before rest after) = .ok (some (name, place), next)) :
    ∃ head left, rest = head ++ (name ++ left) ∧ LeadsToName name head ∧ IsName name ∧
      (∀ c ∈ left.head?, isNameChar c = false) ∧
      next = amid (before ++ (head ++ name)) left after := by
  rw [enumName, ← bind_assoc] at h
  rcases skipBlanks_name_cases before rest after with
    ⟨next', hread⟩ | ⟨blanks, first, place', left, rfl, hblanks, hfirst, hend, hread⟩
  · rw [hread] at h
    cases h
  · rw [hread, ok_bind] at h
    by_cases hkey : first = "class" ∨ first = "struct"
    · simp only [Option.any_some, if_pos (decide_eq_true hkey)] at h
      rcases skipBlanks_name_cases (before ++ (blanks ++ first)) left after with
        ⟨next', hread⟩ | ⟨space, name', place', left, rfl, hspace, hname, hend', hread⟩
      · rw [hread] at h
        cases h
      · rw [hread] at h
        cases h
        refine ⟨blanks ++ (first ++ space), left, by simp, ?_, hname, hend', by simp⟩
        refine .keyed hblanks hkey ?_ hspace
        exact ne_nil_of_head?_append hname hend
    · simp only [Option.any_some, if_neg (fun h => hkey (of_decide_eq_true h))] at h
      cases h
      exact ⟨blanks, left, rfl, .plain hblanks (not_or.mp hkey), hfirst, hend, rfl⟩

theorem isEnumEnd_of_skipBlanks_accept (before rest after : Text) :
    ∃ back left accepted, rest = back ++ left ∧ IsEnumEnd back ∧
      ((amid before rest after).skipBlanks >>= fun s => s.accept ';') =
        .ok (accepted, amid (before ++ back) left after) := by
  obtain ⟨blanks, tail, rfl, hblanks, htail⟩ := exists_run_append isBlank rest
  rw [skipBlanks_amid hblanks htail, ok_bind]
  by_cases hc : tail.head? = some ';'
  · obtain ⟨left, rfl⟩ := List.head?_eq_some_iff.mp hc
    refine ⟨blanks ++ [';'], left, true, by simp, ⟨blanks, hblanks, .inr rfl⟩, ?_⟩
    rw [accept_amid, List.append_assoc]
  · refine ⟨blanks, tail, false, rfl, ⟨blanks, hblanks, .inl rfl⟩, ?_⟩
    rw [accept, peek_amid, ok_bind, if_neg hc]
    rfl

/-- What is found behind a name is one enumeration with the parts that stand there, or none. -/
theorem parts_of_blockRound {name : Text} {place : Span} {start : Nat}
    {batch : Findings EnumBlock} {next : Cursor}
    (h : blockRound name place start (amid before rest after) = .ok (.found batch next)) :
    batch.items = [] ∨
      ∃ clause body back left, rest = clause ++ '{' :: (body ++ '}' :: (back ++ left)) ∧
        IsPassed ['{', ';'] 0 clause ∧ Balanced '{' '}' body ∧ IsEnumEnd back ∧
        next = amid (before ++ (clause ++ '{' :: (body ++ '}' :: back))) left after ∧
        batch = .item ⟨name, enumEntries name body, .between start next.pos⟩ := by
  unfold blockRound at h
  cases htarget : upToTarget? ['{', ';'] 0 rest with
  | none =>
      rw [upToAny_amid_of_eq_none htarget] at h
      cases h
      exact .inl rfl
  | some found =>
      obtain ⟨clause, c⟩ := found
      obtain ⟨hc, rest, rfl⟩ := eq_append_of_upToTarget? htarget
      rw [upToAny_amid htarget, ok_bind] at h
      rcases List.mem_pair.mp hc with rfl | rfl
      · simp only at h
        rcases block_amid_cases (by decide : '{' ≠ '}') (before ++ clause) rest after with
          ⟨-, hblock⟩ | ⟨body, rest, rfl, hbody, hblock⟩
        · rw [hblock] at h
          cases h
          exact .inl rfl
        · obtain ⟨back, left, accepted, rfl, hback, haccept⟩ := isEnumEnd_of_skipBlanks_accept
            (before ++ clause ++ '{' :: (body ++ ['}'])) rest after
          have hslice := slice_amid_behind_mark (before ++ clause) ('}' :: (back ++ left)) after
            (by decide : '{'.utf8Size = 1) body
          rw [hblock, ok_bind] at h
          simp only at h
          rw [← bind_assoc, haccept, ok_bind] at h
          simp only at h
          rw [hslice] at h
          cases h
          exact .inr ⟨clause, body, back, left, rfl, isPassed_of_upToTarget? htarget, hbody, hback,
            by simp, rfl⟩
      · cases h
        exact .inl rfl

end

/-! ## Places -/

/-- An enumeration stands in a text between two offsets. -/
def EnumAt (t : Text) (e : EnumBlock) (start stop : Nat) : Prop :=
  ∃ before text behind, t = before ++ (text ++ behind) ∧
    separatesWords before.getLast? = true ∧ start = size before ∧ stop = start + size text ∧
    e.span = .between start stop ∧
    ∃ p : EnumParts e.name text, e.entries = enumEntries e.name p.body

theorem EnumParts.enumAt {name text : Text} (p : EnumParts name text) {before : Text}
    (hbefore : separatesWords before.getLast? = true) (behind : Text) :
    EnumAt (before ++ (text ++ behind))
      ⟨name, enumEntries name p.body, .between (size before) (size before + size text)⟩
      (size before) (size before + size text) :=
  ⟨before, text, behind, rfl, hbefore, rfl, rfl, rfl, p, rfl⟩

/-- A round finds no enumeration, or the one that ends where the next round starts. -/
theorem enumAt_of_enumRound {before rest : Text} {batch : Findings EnumBlock} {next : Cursor}
    (h : enumRound (amid before rest []) = .ok (.found batch next)) :
    batch.items = [] ∨ ∃ e start, batch.items = [e] ∧ size before ≤ start ∧
      EnumAt (before ++ rest) e start next.pos := by
  cases hkeyword : upToWordAt? "enum".toList sameDepth 0 before.getLast? rest with
  | none =>
      rw [enumRound, passWord_amid_of_eq_none (by decide) isNameChar_of_mem_enum hkeyword] at h
      cases h
  | some gap =>
      obtain ⟨tail, rfl, hbefore, -⟩ := eq_append_of_upToWordAt? hkeyword
      rw [← List.getLast?_append] at hbefore
      rw [enumRound, passWord_amid_of_eq_some (by decide) isNameChar_of_mem_enum hkeyword,
        ok_bind] at h
      simp only at h
      obtain ⟨⟨found?, s⟩, hname, h⟩ := bind_eq_ok_iff.mp h
      cases found? with
      | none =>
          cases h
          exact .inl rfl
      | some found =>
          obtain ⟨name, place⟩ := found
          obtain ⟨head, tail, rfl, hleads, hisName, hend, rfl⟩ := leadsToName_of_enumName hname
          change blockRound name place (size (before ++ gap)) _ = _ at h
          rcases parts_of_blockRound h with hnil | ⟨clause, body, back, left, rfl, hclause, hbody,
            hback, rfl, rfl⟩
          · exact .inl hnil
          · let p : EnumParts name ("enum".toList ++
                (head ++ (name ++ (clause ++ '{' :: (body ++ '}' :: back))))) :=
              ⟨head, clause, body, back, rfl, hleads, hisName,
                fun c hc => hend c (List.mem_head?_append_of_mem_head? hc), hclause, hbody, hback⟩
            have hpos : (amid (before ++ gap ++ "enum".toList ++ (head ++ name) ++
                (clause ++ '{' :: (body ++ '}' :: back))) left []).pos =
                size (before ++ gap) + size ("enum".toList ++
                  (head ++ (name ++ (clause ++ '{' :: (body ++ '}' :: back))))) := by
              simp only [pos_amid, size_append, size_cons]
              omega
            have hat := p.enumAt hbefore left
            rw [← hpos] at hat
            exact .inr ⟨_, size (before ++ gap), rfl, by simp, by simpa using hat⟩

theorem successive_enumRound {before rest : Text} {batch : Findings EnumBlock} {next : Cursor}
    (h : enumRound (amid before rest []) = .ok (.found batch next)) :
    Successive (EnumAt (before ++ rest)) (size before) batch.items next.pos := by
  rcases enumAt_of_enumRound h with hnil | ⟨e, start, hitem, hstart, he⟩
  · obtain ⟨passed, remaining, -, -, hnext⟩ := exists_next_of_enumRound h
    rw [hnil]
    refine .nil ?_
    rw [hnext, pos_amid, size_append]
    exact Nat.le_add_right _ _
  · rw [hitem]
    exact .cons he hstart (.nil (Nat.le_refl _))

/-- The enumerations of a text stand in it one behind the other. -/
theorem successive_of_enumsIn {t : Text} {found : Findings EnumBlock} (h : enumsIn t = .ok found) :
    Successive (EnumAt t) 0 found.items (size t) := by
  rw [enumsIn, ofText_eq_amid] at h
  refine successive_of_collect
    (fun s => ∃ before rest, t = before ++ rest ∧ s = amid before rest []) ?_ ?_
    ⟨[], t, rfl, rfl⟩ h
  · rintro _ ⟨before, rest, rfl, rfl⟩
    simp
  · rintro _ batch next ⟨before, rest, rfl, rfl⟩ hround
    have hbatch := successive_enumRound hround
    obtain ⟨part, left, rfl, hpart, rfl⟩ := exists_next_of_enumRound hround
    exact ⟨remaining_amid_lt rfl hpart, ⟨before ++ part, left, by simp, rfl⟩, hbatch⟩

/-- Every text is read, and every enumeration that is read is written there with its name, its
body and its entries. What is written is the definition of an enumeration exactly if the body
follows the name or a clause does that starts with a colon. -/
theorem exists_enumParts (t : Text) :
    ∃ found, enumsIn t = .ok found ∧ ∀ e ∈ found.items, ∃ before text behind,
      t = before ++ (text ++ behind) ∧ separatesWords before.getLast? = true ∧
        e.span = .between (size before) (size before + size text) ∧
        ∃ p : EnumParts e.name text, e.entries = enumEntries e.name p.body ∧
          (IsEnumDefinition text ↔ StartsBody p.clause) := by
  obtain ⟨found, hfound⟩ := exists_found_of_enumsIn t
  refine ⟨found, hfound, ?_⟩
  intro e he
  obtain ⟨start, stop, before, text, behind, htext, hbefore, rfl, rfl, hspan, p, hentries⟩ :=
    (successive_of_enumsIn hfound).exists_place e he
  exact ⟨before, text, behind, htext, hbefore, hspan, p, hentries, p.isEnumDefinition_iff⟩

/-- A function that returns an enumeration is read as one: its body is taken for the entries. -/
theorem not_isEnumDefinition_function :
    let t : Text := "enum Mode mode(int i) \x7b return A; \x7d"
    blankComments t = t ∧
      enumsIn t = .ok { items := [⟨"Mode", [⟨"return A;", false, "return a;"⟩], ⟨0, 35⟩⟩] } ∧
      slice 0 35 t = .ok t ∧ ¬ IsEnumDefinition t := by
  intro t
  let p : EnumParts "Mode" t :=
    { head := " "
      clause := " mode(int i) "
      body := " return A; "
      back := ""
      text_eq := by decide
      leads := .plain forall_isBlank_singleton (by decide)
      isName := by decide
      ends_name := eq_false_of_any_eq_false (by decide)
      isPassed_clause := isPassed_of_upToTarget? (t := " mode(int i) \x7b") (c := '{') (by decide)
      balanced := by decide
      isEnd := ⟨[], forall_isBlank_nil, .inl rfl⟩ }
  refine ⟨by decide +kernel, by decide +kernel, by decide +kernel, ?_⟩
  rw [p.isEnumDefinition_iff]
  rintro (hblank | ⟨blanks, base, hclause, -⟩)
  · exact absurd (hblank 'm' (by decide)) (by decide)
  · have hcolon : ':' ∈ p.clause := by
      rw [hclause]
      exact List.mem_append_right _ List.mem_cons_self
    exact absurd hcolon (by decide)

end HeaderBindings.Header
