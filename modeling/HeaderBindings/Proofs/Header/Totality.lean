import HeaderBindings.Proofs.Header.Naming
import HeaderBindings.Proofs.Header.Reports

/-! # Headers that are read to the end

Reading the functions of a header fails in one way only: the text between `static` and a parameter
list is cut one byte behind the start of the last character that is no part of a name, and that
character takes more than one byte. A header without such a head is read to the end, whatever else
it holds. Reading the enumerations never fails. -/

namespace HeaderBindings.Header

open List Text Cursor

/-! ## Cutting a head -/

/-- What stands right before the name in a head takes one byte. -/
def CutsBeforeName (head : Text) : Prop :=
  ∀ c ∈ (splitTrailing isNameChar (trim head)).1.getLast?, c.utf8Size = 1

instance (head : Text) : Decidable (CutsBeforeName head) :=
  decidable_of_iff
    ((splitTrailing isNameChar (trim head)).1.getLast?.all (·.utf8Size = 1) = true)
    (by simp [CutsBeforeName, Option.all_eq_true])

/-- Both cuts of a head stand right before its trailing run of name characters. -/
theorem signature?_of_cutsBeforeName {head front name : Text} (h : CutsBeforeName head)
    (hparts : splitTrailing isNameChar (trim head) = (front, name)) :
    signature? head =
      .ok (if (typeSpelling front).isEmpty || name.isEmpty || name.head?.any Char.isDigit then none
        else some (typeSpelling front, name)) := by
  have hhead : front ++ name = trim head := by
    rw [← splitTrailing_fst_append_snd isNameChar (trim head), hparts]
  have hcut : (if front.isEmpty then 0 else size front.dropLast + 1) = size front := by
    rcases List.eq_nil_or_concat' front with rfl | ⟨start, c, rfl⟩
    · rfl
    · have hc : c.utf8Size = 1 := h c (by simp [hparts])
      simp [hc]
  have hresult : slice 0 (size front) (trim head) = .ok front :=
    slice_eq_ok [] front name hhead.symm rfl (Nat.zero_add _).symm
  have hname : slice (size front) (size (trim head)) (trim head) = .ok name :=
    slice_eq_ok front name [] (by simp [hhead]) rfl (by rw [← hhead, size_append])
  unfold signature?
  simp only [hparts, hcut, hresult, hname, ok_bind]
  split <;> rfl

theorem cutsBeforeName_of_signature? {head : Text} {signature : Option (Text × Text)}
    (h : signature? head = .ok signature) : CutsBeforeName head := by
  intro c hc
  obtain ⟨front, hfront⟩ := List.getLast?_eq_some_iff.mp (Option.mem_def.mp hc)
  have hhead := splitTrailing_fst_append_snd isNameChar (trim head)
  rw [hfront, List.append_assoc, List.singleton_append] at hhead
  unfold signature? at h
  simp only [bind_eq_ok_iff] at h
  obtain ⟨result, -, name, hname, -⟩ := h
  have hcut : (if (front ++ [c]).isEmpty then 0 else size (front ++ [c]).dropLast + 1) =
      size front + 1 := by simp
  rw [hfront, hcut, ← hhead] at hname
  exact slice_behind hname

/-- A head is split exactly if the character before its name takes one byte. -/
theorem exists_signature?_iff {head : Text} :
    (∃ signature, signature? head = .ok signature) ↔ CutsBeforeName head := by
  constructor
  · rintro ⟨signature, h⟩
    exact cutsBeforeName_of_signature? h
  · intro h
    exact ⟨_, signature?_of_cutsBeforeName h rfl⟩

/-! ## Heads in a text -/

/-- Every text between `static` and an opening parenthesis can be cut before its name. -/
def HeadsCut (t : Text) : Prop :=
  ∀ front head back, t = front ++ ("static".toList ++ (head ++ '(' :: back)) →
    (∀ c ∈ head, c ∉ headEnds) → CutsBeforeName head

theorem headsCut_iff {t : Text} :
    HeadsCut t ↔ ∀ tail ∈ t.tails, ∀ behind ∈ afterStart? "static" tail,
      ∀ head ∈ behind.inits, (behind.drop head.length).head? = some '(' →
        head.all (· ∉ headEnds) = true → CutsBeforeName head := by
  simp only [List.all_iff_forall_prop]
  constructor
  · intro h tail htail behind hbehind head hhead hparen
    obtain ⟨front, rfl⟩ := (List.mem_tails _ _).mp htail
    obtain ⟨rest, rfl⟩ := (List.mem_inits _ _).mp hhead
    rw [List.drop_left] at hparen
    obtain ⟨back, rfl⟩ := List.head?_eq_some_iff.mp hparen
    exact h front head back (by rw [eq_append_of_afterStart? hbehind])
  · rintro h front head back rfl
    refine h _ ((List.mem_tails _ _).mpr (List.suffix_append front _)) (head ++ '(' :: back)
      (afterStart?_append _ _) head ((List.mem_inits _ _).mpr (List.prefix_append head _)) ?_
    rw [List.drop_left, List.head?_cons]

instance (t : Text) : Decidable (HeadsCut t) := decidable_of_iff _ headsCut_iff.symm

theorem HeadsCut.of_append (front : Text) {t : Text} (back : Text)
    (h : HeadsCut (front ++ t ++ back)) : HeadsCut t := by
  rintro start head rest rfl hhead
  exact h (front ++ start) head (rest ++ back) (by simp) hhead

/-! ## Rounds -/

/-- A cursor between characters that has no other heads in its range. -/
def CutsAhead (s : Cursor) : Prop :=
  ∃ before rest after, s = amid before rest after ∧ HeadsCut rest

theorem CutsAhead.of_append {before part left after : Text} (h : HeadsCut (part ++ left)) :
    CutsAhead (amid (before ++ part) left after) := by
  refine ⟨before ++ part, left, after, rfl, ?_⟩
  apply HeadsCut.of_append part []
  simpa using h

theorem exists_functionRound_eq_ok (scope : Text) {s : Cursor} (h : CutsAhead s) :
    ∃ outcome, functionRound scope s = .ok outcome ∧
      ∀ batch next, outcome = .found batch next → CutsAhead next := by
  obtain ⟨before, rest, after, rfl, hcuts⟩ := h
  have houtcome := functionRound_outcome scope before rest after
  generalize functionRound scope (amid before rest after) = outcome at houtcome
  cases houtcome with
  | finished => exact ⟨_, rfl, by simp⟩
  | reported problem hrest hpart =>
      subst hrest
      refine ⟨_, rfl, ?_⟩
      rintro _ _ ⟨⟩
      exact .of_append hcuts
  | read hrest =>
      subst hrest
      refine ⟨_, rfl, ?_⟩
      rintro _ _ ⟨⟩
      exact .of_append hcuts
  | badHead hrest hhead hsignature =>
      obtain ⟨signature, hok⟩ := exists_signature?_iff.mpr (hcuts _ _ _ hrest hhead)
      rw [hok] at hsignature
      cases hsignature

theorem exists_namespaceRound_eq_ok {s : Cursor} (h : CutsAhead s) :
    ∃ outcome, namespaceRound s = .ok outcome ∧
      ∀ batch next, outcome = .found batch next → CutsAhead next := by
  obtain ⟨before, rest, after, rfl, hcuts⟩ := h
  have houtcome := namespaceRound_outcome before rest after
  generalize namespaceRound (amid before rest after) = outcome at houtcome
  cases houtcome with
  | finished => exact ⟨_, rfl, by simp⟩
  | reported problem hrest hpart =>
      subst hrest
      refine ⟨_, rfl, ?_⟩
      rintro _ _ ⟨⟩
      exact .of_append hcuts
  | @read part inside left scope found hrest =>
      refine ⟨_, rfl, ?_⟩
      rintro _ _ ⟨⟩
      apply CutsAhead.of_append
      simpa [hrest] using hcuts
  | @badHead part inside left scope cut hrest hfound =>
      have hinside : HeadsCut inside := by
        apply HeadsCut.of_append (part ++ ['{']) ('}' :: left)
        simpa [hrest] using hcuts
      obtain ⟨found, hok⟩ := exists_collect_eq_ok
        (fun s => exists_functionRound_eq_ok scope) ⟨_, _, _, rfl, hinside⟩
      rw [hok] at hfound
      cases hfound

/-- A header whose heads can all be cut is read to the end. -/
theorem exists_functionsOf_eq_ok {raw : Text} (h : HeadsCut (blankComments raw)) :
    ∃ found, functionsOf raw = .ok found := by
  have hstart : CutsAhead (.ofText (blankComments raw)) :=
    ⟨[], blankComments raw, [], ofText_eq_amid _, h⟩
  exact exists_collect_eq_ok (fun s => exists_namespaceRound_eq_ok) hstart

theorem exists_functionsOf_eq_ok_accented :
    let raw : Text :=
      "namespace A \x7b // é (\n static Entité F(char* é) \x7b é \x7d static Été 9é \x7d \x7d"
    HeadsCut (blankComments raw) ∧ ∃ found, functionsOf raw = .ok found := by
  intro raw
  have h : HeadsCut (blankComments raw) := by decide +kernel
  exact ⟨h, exists_functionsOf_eq_ok h⟩

/-- A no-break space before the name is white space, but the cut falls into it. -/
theorem functionsOf_noBreakSpace_eq_error :
    functionsOf "namespace A \x7b static int\u00a0F() \x7b\x7d \x7d" = .error ⟨0, 4⟩ := by
  decide +kernel

/-! ## Enumerations -/

/-- The enumerations of every text are read to the end. -/
theorem exists_found_of_enumsIn (t : Text) : ∃ found, enumsIn t = .ok found := by
  have hround : ∀ s, (∃ before rest after, s = amid before rest after) →
      ∃ outcome, enumRound s = .ok outcome ∧ ∀ batch next, outcome = .found batch next →
        ∃ before rest after, next = amid before rest after := by
    rintro _ ⟨before, rest, after, rfl⟩
    have houtcome := enumRound_outcome before rest after
    generalize enumRound (amid before rest after) = outcome at houtcome
    cases houtcome with
    | finished => exact ⟨_, rfl, by simp⟩
    | found batch =>
        refine ⟨_, rfl, ?_⟩
        rintro _ _ ⟨⟩
        exact ⟨_, _, _, rfl⟩
  exact exists_collect_eq_ok hround ⟨[], t, [], ofText_eq_amid _⟩

theorem exists_enumsOf_eq_ok (raw : Text) : ∃ found, enumsOf raw = .ok found :=
  exists_found_of_enumsIn (blankComments raw)

end HeaderBindings.Header
