import HeaderBindings.Proofs.Binding.Bindable
import HeaderBindings.Proofs.Binding.Blocks
import HeaderBindings.Proofs.Binding.Conservation

/-! # Isolation of failures

A function without a mapping takes its place from the functions before it, as any other does, and
then leaves the place empty. Taking away all functions of such places changes no block; taking
away the failed functions alone changes a block only where one of them had displaced a function
that can be bound. -/

namespace HeaderBindings.MemberPolicy

open List Binding

variable {policy : MemberPolicy} {mapping : TypeMapping} {functions others : List NativeFunction}

/-! ## Holders of places -/

/-- The function that holds a place: the last that takes it. -/
def holder? (policy : MemberPolicy) (place : Place) (functions : List NativeFunction) :
    Option NativeFunction :=
  (policy.contenders place functions).getLast?

theorem place?_of_holder?_eq_some {place : Place} {d : NativeFunction}
    (h : policy.holder? place functions = some d) : policy.place? d = some place := by
  simpa using (List.mem_filter.mp (List.mem_of_getLast? h)).2

theorem mem_of_holder?_eq_some {place : Place} {d : NativeFunction}
    (h : policy.holder? place functions = some d) : d ∈ functions :=
  (List.mem_filter.mp (List.mem_of_getLast? h)).1

theorem contenders_filter (place : Place) (test : NativeFunction → Bool) :
    policy.contenders place (functions.filter test) =
      (policy.contenders place functions).filter test := by
  simp only [contenders, List.filter_filter, Bool.and_comm]

theorem holder?_filter_of_eq_some {place : Place} {d : NativeFunction}
    {test : NativeFunction → Bool} (h : policy.holder? place functions = some d)
    (hd : test d = true) : policy.holder? place (functions.filter test) = some d := by
  obtain ⟨front, hfront⟩ := List.getLast?_eq_some_iff.mp h
  rw [holder?, contenders_filter, hfront, List.filter_append, List.filter_cons_of_pos hd]
  exact List.getLast?_concat

theorem mem_placed_iff {d : NativeFunction} :
    d ∈ policy.placed functions ↔ ∃ place, policy.holder? place functions = some d := by
  constructor
  · intro h
    obtain ⟨m, hm, rfl⟩ := List.mem_map.mp h
    obtain ⟨b, hb, hm⟩ := List.mem_flatMap.mp hm
    obtain ⟨e, -, rfl⟩ := mem_types_classify_iff.mp hb
    obtain ⟨kind, hm⟩ := TypeMembers.mem_members_iff.mp hm
    have hsorted := (policy.ordered_gather e.typeName functions).sorted kind
    have hfound := hsorted.find?_eq_some_of_mem hm
    have hgather : some m =
        (policy.holder? ⟨e.typeName, kind, m.exposed⟩ functions).bind policy.member? := by
      rw [holder?, ← find?_gather, TypeMembers.find?, hfound]
    obtain ⟨last, hlast, hmember⟩ := Option.bind_eq_some_iff.mp hgather.symm
    rw [function_of_member?_eq_some hmember]
    exact ⟨_, hlast⟩
  · rintro ⟨place, h⟩
    obtain ⟨m, hm, rfl⟩ := place?_eq_some_iff.mp (place?_of_holder?_eq_some h)
    have hfound : (policy.gather d.typeName functions).find? m.kind m.exposed = some m := by
      rw [find?_gather]
      exact Option.bind_eq_some_iff.mpr ⟨d, h, member?_eq_some_iff.mpr hm⟩
    have hmem : m ∈ (policy.gather d.typeName functions).members :=
      TypeMembers.mem_members_iff.mpr ⟨m.kind, Keyed.mem_of_find?_eq_some hfound⟩
    refine List.mem_map.mpr ⟨m, List.mem_flatMap.mpr ⟨_, ?_, hmem⟩, function_of_member_eq_ok hm⟩
    exact mem_types_classify_iff.mpr ⟨d, mem_of_holder?_eq_some h, rfl⟩

/-- The functions that are listed as failed. -/
def failing (policy : MemberPolicy) (mapping : TypeMapping) (functions : List NativeFunction) :
    List NativeFunction :=
  (nativeBindings mapping (policy.classify functions)).failed.map (·.function)

/-- A function fails if it holds a place and cannot be bound. -/
theorem mem_failing_iff (h : mapping.table.names.Nodup) {d : NativeFunction} :
    d ∈ policy.failing mapping functions ↔
      (∃ place, policy.holder? place functions = some d) ∧ policy.call? mapping d = none := by
  rw [failing, (failed_perm h).mem_iff, List.mem_filter, mem_placed_iff, Option.isNone_iff_eq_none]

/-! ## Blocks of two runs -/

theorem find?_gather_filter_canBind {type : Text} {kind : MemberKind} {exposed : Text} :
    ((policy.gather type functions).find? kind exposed).filter (canBind mapping type) =
      ((policy.holder? ⟨type, kind, exposed⟩ functions).filter
        fun d => (policy.call? mapping d).isSome).bind policy.member? := by
  rw [find?_gather, ← holder?]
  cases hd : policy.holder? ⟨type, kind, exposed⟩ functions with
  | none => rfl
  | some d =>
      obtain ⟨m, hm, hplace⟩ := place?_eq_some_iff.mp (place?_of_holder?_eq_some hd)
      obtain ⟨rfl, -, -⟩ := Place.mk.inj hplace
      have hmember := member?_eq_some_iff.mpr hm
      simp only [Option.filter_some, call?, canBind, hmember, Option.bind_some]
      by_cases hcall : (lambda? mapping d.typeName m).isSome = true <;> simp [hcall, hmember]

/-- Two runs give a type the same block, if each place of it goes to the same function or to one
that cannot be bound. -/
theorem blockLines_eq_of_holders {type : Text}
    (hknown : (∃ d ∈ functions, d.typeName = type) ↔ ∃ d ∈ others, d.typeName = type)
    (hholders : ∀ kind exposed,
      (policy.holder? ⟨type, kind, exposed⟩ functions).filter
          (fun d => (policy.call? mapping d).isSome) =
        (policy.holder? ⟨type, kind, exposed⟩ others).filter
          fun d => (policy.call? mapping d).isSome) :
    (nativeBindings mapping (policy.classify functions)).blockLines type =
      (nativeBindings mapping (policy.classify others)).blockLines type := by
  have hordered := policy.ordered_gather type functions
  have hordered' := policy.ordered_gather type others
  have hmembers : (policy.gather type functions).filter (canBind mapping type) =
      (policy.gather type others).filter (canBind mapping type) := by
    refine (hordered.filter _).eq_of_find?_eq (hordered'.filter _) ?_ ?_
    · exact (typeName_gather type functions).trans (typeName_gather type others).symm
    · intro kind exposed
      rw [hordered.find?_filter, hordered'.find?_filter, find?_gather_filter_canBind,
        find?_gather_filter_canBind, hholders]
  refine blockLines_congr ?_ ?_
  · rw [mem_namespaceTypes_classify, mem_namespaceTypes_classify, hknown]
  · rw [memberBody_classify, memberBody_classify, ← entries_classBody_filter hordered,
      ← entries_classBody_filter hordered', hmembers]

/-- Functions may be taken away where a place loses its holder only to one that cannot be bound,
as the holder could not. -/
theorem blockLines_filter {type : Text} {test : NativeFunction → Bool}
    (htype : type ∈ (functions.filter test).map (·.typeName))
    (hlost : ∀ kind exposed d, policy.holder? ⟨type, kind, exposed⟩ functions = some d →
      test d = false → policy.call? mapping d = none ∧
        ∀ e, policy.holder? ⟨type, kind, exposed⟩ (functions.filter test) = some e →
          policy.call? mapping e = none) :
    (nativeBindings mapping (policy.classify (functions.filter test))).blockLines type =
      (nativeBindings mapping (policy.classify functions)).blockLines type := by
  obtain ⟨e, he, rfl⟩ := List.mem_map.mp htype
  refine blockLines_eq_of_holders ?_ ?_
  · exact ⟨fun _ => ⟨e, (List.mem_filter.mp he).1, rfl⟩, fun _ => ⟨e, he, rfl⟩⟩
  · intro kind exposed
    have hnone : ∀ holder : Option NativeFunction,
        (∀ d, holder = some d → policy.call? mapping d = none) →
          holder.filter (fun d => (policy.call? mapping d).isSome) = none := by
      intro holder hholder
      cases holder with
      | none => rfl
      | some d => simp [hholder d rfl]
    cases hd : policy.holder? ⟨e.typeName, kind, exposed⟩ functions with
    | none =>
        have hempty := List.getLast?_eq_none_iff.mp hd
        rw [holder?, contenders_filter, hempty]
        rfl
    | some d =>
        cases htest : test d with
        | true => rw [holder?_filter_of_eq_some hd htest]
        | false =>
            obtain ⟨hcall, hrest⟩ := hlost kind exposed d hd htest
            rw [hnone _ hrest, hnone (some d) (by rintro _ ⟨⟩; exact hcall)]

/-! ## Taking failures away -/

/-- The functions that are not listed as failed. -/
def withoutFailing (policy : MemberPolicy) (mapping : TypeMapping)
    (functions : List NativeFunction) : List NativeFunction :=
  functions.filter (· ∉ policy.failing mapping functions)

/-- The functions that neither failed nor gave way to one that failed. -/
def withoutFailingPlaces (policy : MemberPolicy) (mapping : TypeMapping)
    (functions : List NativeFunction) : List NativeFunction :=
  functions.filter fun d =>
    (policy.failing mapping functions).all fun e => policy.place? d ≠ policy.place? e

theorem blockLines_withoutFailing (h : mapping.table.names.Nodup) {type : Text}
    (htype : type ∈ (policy.withoutFailing mapping functions).map (·.typeName))
    (hdisplaced : ∀ e ∈ policy.failing mapping functions, e.typeName = type →
      ∀ d ∈ policy.withoutFailing mapping functions, policy.place? d = policy.place? e →
        policy.call? mapping d = none) :
    (nativeBindings mapping
        (policy.classify (policy.withoutFailing mapping functions))).blockLines type =
      (nativeBindings mapping (policy.classify functions)).blockLines type := by
  refine blockLines_filter htype ?_
  intro kind exposed d hd htest
  have hfailing : d ∈ policy.failing mapping functions := by simpa using htest
  refine ⟨((mem_failing_iff h).mp hfailing).2, ?_⟩
  intro e he
  have hplace := place?_of_holder?_eq_some hd
  obtain ⟨m, -, htype⟩ := place?_eq_some_iff.mp hplace
  refine hdisplaced d hfailing (Place.mk.inj htype).1 e (mem_of_holder?_eq_some he) ?_
  rw [hplace, place?_of_holder?_eq_some he]

theorem blockLines_withoutFailingPlaces (h : mapping.table.names.Nodup) {type : Text}
    (htype : type ∈ (policy.withoutFailingPlaces mapping functions).map (·.typeName)) :
    (nativeBindings mapping
        (policy.classify (policy.withoutFailingPlaces mapping functions))).blockLines type =
      (nativeBindings mapping (policy.classify functions)).blockLines type := by
  refine blockLines_filter htype ?_
  intro kind exposed d hd htest
  simp only [List.all_eq_false, decide_eq_true_eq, not_not] at htest
  obtain ⟨failed, hfailed, hplace⟩ := htest
  obtain ⟨⟨place, hholder⟩, hcall⟩ := (mem_failing_iff h).mp hfailed
  rw [place?_of_holder?_eq_some hd, place?_of_holder?_eq_some hholder] at hplace
  obtain rfl := Option.some.inj hplace
  obtain rfl : failed = d := Option.some.inj (hholder.symm.trans hd)
  refine ⟨hcall, ?_⟩
  intro e he
  have hstays := (List.mem_filter.mp (mem_of_holder?_eq_some he)).2
  simp only [List.all_eq_true, decide_eq_true_eq] at hstays
  refine absurd ?_ (hstays failed hfailed)
  rw [place?_of_holder?_eq_some he, place?_of_holder?_eq_some hd]

/-- Functions without a mapping leave no trace in the blocks but for the functions whose places
they took. -/
structure FailuresIsolated (policy : MemberPolicy) (mapping : TypeMapping)
    (functions : List NativeFunction) : Prop where
  /-- Without the failed functions every block stays the same in which none of them had taken the
  place of a function that can be bound. -/
  withoutFailing : ∀ type ∈ (policy.withoutFailing mapping functions).map (·.typeName),
    (∀ e ∈ policy.failing mapping functions, e.typeName = type →
      ∀ d ∈ policy.withoutFailing mapping functions, policy.place? d = policy.place? e →
        policy.call? mapping d = none) →
    (nativeBindings mapping
        (policy.classify (policy.withoutFailing mapping functions))).blockLines type =
      (nativeBindings mapping (policy.classify functions)).blockLines type
  /-- Without all functions of their places every block stays the same. -/
  withoutFailingPlaces : ∀ type ∈ (policy.withoutFailingPlaces mapping functions).map (·.typeName),
    (nativeBindings mapping
        (policy.classify (policy.withoutFailingPlaces mapping functions))).blockLines type =
      (nativeBindings mapping (policy.classify functions)).blockLines type

theorem failuresIsolated_of_ofEntries {entries : List LogicalType} {table : TypeTable}
    (h : TypeTable.ofEntries entries = .ok table) (plain : PlainTypes)
    (handWritten : HandWritten) (names : NameFilter) (functions : List NativeFunction) :
    FailuresIsolated ⟨table, handWritten, names⟩ ⟨table, plain⟩ functions := by
  have hnames : table.names.Nodup := TypeTable.nodup_names_of_ofEntries h
  exact ⟨fun _ htype => blockLines_withoutFailing hnames htype,
    fun _ htype => blockLines_withoutFailingPlaces hnames htype⟩

/-- The getter fails, so its setter is a plain one, with the getter in the list or without it. -/
theorem failuresIsolated_of_pair :
    let getter : NativeFunction := ⟨"PED", "Vector3*", "GET_PED_BONE", [⟨"Ped", "ped"⟩], ⟨0, 9⟩⟩
    let setter : NativeFunction :=
      ⟨"PED", "void", "SET_PED_BONE", [⟨"Ped", "ped"⟩, ⟨"int", "bone"⟩], ⟨9, 19⟩⟩
    let policy : MemberPolicy := ⟨⟨stockTypes⟩, {}, {}⟩
    let mapping : TypeMapping := ⟨⟨stockTypes⟩, {}⟩
    TypeTable.ofEntries stockTypes = .ok ⟨stockTypes⟩ ∧
      policy.withoutFailing mapping [getter, setter] = [setter] ∧
      (nativeBindings mapping
          (policy.classify (policy.withoutFailing mapping [getter, setter]))).blockLines "Ped" =
        (nativeBindings mapping (policy.classify [getter, setter])).blockLines "Ped" :=
  have h : TypeTable.ofEntries stockTypes = .ok ⟨stockTypes⟩ := by decide +kernel
  ⟨h, by decide +kernel,
    (failuresIsolated_of_ofEntries h {} {} {} _).withoutFailing "Ped" (by decide +kernel)
      (by decide +kernel)⟩

/-- A getter that fails has displaced one that can be bound, which comes back without it. -/
theorem not_forall_blockLines_withoutFailing :
    ¬ ∀ (entries : List LogicalType) (table : TypeTable), TypeTable.ofEntries entries = .ok table →
      ∀ (plain : PlainTypes) (handWritten : HandWritten) (names : NameFilter)
        (functions : List NativeFunction),
        let policy : MemberPolicy := ⟨table, handWritten, names⟩
        let mapping : TypeMapping := ⟨table, plain⟩
        ∀ type ∈ (policy.withoutFailing mapping functions).map (·.typeName),
          (nativeBindings mapping
              (policy.classify (policy.withoutFailing mapping functions))).blockLines type =
            (nativeBindings mapping (policy.classify functions)).blockLines type := by
  intro h
  have hped := h stockTypes ⟨stockTypes⟩ (by decide +kernel) {} {} {}
    [⟨"PED", "int", "GET_PED_HEALTH", [⟨"Ped", "ped"⟩], ⟨0, 9⟩⟩,
      ⟨"PED", "Vector3*", "_GET_PED_HEALTH", [⟨"Ped", "ped"⟩], ⟨9, 19⟩⟩] "Ped"
    (by decide +kernel)
  revert hped
  decide +kernel

end HeaderBindings.MemberPolicy
