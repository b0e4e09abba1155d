import HeaderBindings.Proofs.Binding.Blocks
import HeaderBindings.Proofs.Binding.EntryLines
import HeaderBindings.Proofs.Classification.Accounting

/-! # Conservation of functions

From the classification to the generated code no function is lost and none is doubled: each is
left out with a report, fails with an entry in the list of failures, or is called by one lambda,
whose text stands in one line of the registration code. -/

namespace HeaderBindings.MemberPolicy

open List Binding

variable {policy : MemberPolicy} {mapping : TypeMapping} {functions : List NativeFunction}

/-- The lambda that calls a function, if the function is a member that can be wrapped. -/
def call? (policy : MemberPolicy) (mapping : TypeMapping) (d : NativeFunction) :
    Option Lambda :=
  (policy.member? d).bind (lambda? mapping d.typeName)

theorem native_of_call?_eq_some {d : NativeFunction} {call : Lambda}
    (h : policy.call? mapping d = some call) : call.native = d.qualifiedName := by
  obtain ⟨m, hm, hcall⟩ := Option.bind_eq_some_iff.mp h
  rw [native_of_lambda?_eq_some hcall, function_of_member?_eq_some hm]

theorem calls_of_call?_eq_some {d : NativeFunction} {call : Lambda}
    (h : policy.call? mapping d = some call) : Calls d.qualifiedName call.code := by
  obtain ⟨m, hm, hcall⟩ := Option.bind_eq_some_iff.mp h
  exact function_of_member?_eq_some hm ▸ calls_of_lambda?_eq_some hcall

theorem call?_function_of_mem_types {b : TypeMembers}
    (hb : b ∈ (policy.classify functions).types) {m : Member} (hm : m ∈ b.members) :
    policy.call? mapping m.function = lambda? mapping b.typeName m := by
  obtain ⟨-, htype, hmember⟩ := of_mem_members_of_mem_types hb hm
  rw [call?, member?_eq_some_iff.mpr hmember, htype, Option.bind_some]

/-- The functions of all members. -/
def placed (policy : MemberPolicy) (functions : List NativeFunction) : List NativeFunction :=
  (policy.classify functions).members.map (·.function)

theorem failed_perm (h : mapping.table.names.Nodup) :
    (nativeBindings mapping (policy.classify functions)).failed.map (·.function) ~
      (policy.placed functions).filter fun d => (policy.call? mapping d).isNone := by
  have hwalk := flatMap_memberBody_perm h (policy.sorted_types_classify functions)
    ClassBody.failed rfl
  rw [failed_nativeBindings, placed, Classification.members, List.filter_map,
    List.filter_flatMap]
  refine (hwalk.trans (List.Perm.flatMap_left _ ?_)).map _
  intro b hb
  refine (covers_classBody _ _ (ordered_of_mem_types hb)).failed.trans (List.Perm.of_eq ?_)
  refine List.filter_congr ?_
  intro m hm
  simp only [Function.comp_apply, call?_function_of_mem_types hb hm]

variable (policy functions) in
theorem lambdas_perm (h : mapping.table.names.Nodup) :
    (nativeBindings mapping (policy.classify functions)).lambdas ~
      (policy.placed functions).filterMap (policy.call? mapping) := by
  have hwalk := flatMap_memberBody_perm h (policy.sorted_types_classify functions)
    ClassBody.lambdas rfl
  rw [lambdas_nativeBindings, placed, Classification.members, List.filterMap_map,
    List.filterMap_flatMap]
  refine hwalk.trans (List.Perm.flatMap_left _ ?_)
  intro b hb
  refine (covers_classBody _ _ (ordered_of_mem_types hb)).lambdas.trans (List.Perm.of_eq ?_)
  refine List.filterMap_congr ?_
  intro m hm
  simp only [Function.comp_apply, call?_function_of_mem_types hb hm]

variable (policy functions) in
/-- The functions that are called, in the order of the lambdas that call them. -/
theorem exists_called (h : mapping.table.names.Nodup) :
    ∃ called, called ~
        (policy.placed functions).filter (fun d => (policy.call? mapping d).isSome) ∧
      List.Forall₂ (fun d call => policy.call? mapping d = some call) called
        (nativeBindings mapping (policy.classify functions)).lambdas := by
  have hcalls : ∀ l : List NativeFunction,
      List.Forall₂ (fun call d => policy.call? mapping d = some call)
        (l.filterMap (policy.call? mapping))
        (l.filter fun d => (policy.call? mapping d).isSome) := by
    intro l
    induction l with
    | nil => exact .nil
    | cons d l ih =>
        cases hd : policy.call? mapping d with
        | none => simpa [hd] using ih
        | some call => simpa [hd] using ih
  obtain ⟨called, hforall, hperm⟩ :=
    List.perm_comp_forall₂ (policy.lambdas_perm functions h)
      (hcalls (policy.placed functions))
  exact ⟨called, hperm, hforall.flip⟩

theorem map_eq_map_of_forall₂ {α β γ : Type} {r : α → β → Prop} {f : α → γ} {g : β → γ}
    {l : List α} {m : List β} (h : List.Forall₂ r l m) (hr : ∀ a b, r a b → f a = g b) :
    l.map f = m.map g := by
  induction h with
  | nil => rfl
  | cons hab _ ih => rw [List.map_cons, List.map_cons, hr _ _ hab, ih]

theorem exists_missing_of_mem_failed (h : mapping.table.names.Nodup) {d : NativeFunction}
    (hd : d ∈ (nativeBindings mapping (policy.classify functions)).failed.map (·.function)) :
    ∃ m cause, policy.member d = .ok m ∧ lambdaOf mapping d.typeName m = .error cause := by
  obtain ⟨hplaced, hnone⟩ := List.mem_filter.mp ((failed_perm h).mem_iff.mp hd)
  obtain ⟨m, hm, rfl⟩ := List.mem_map.mp hplaced
  obtain ⟨b, hb, hm⟩ := List.mem_flatMap.mp hm
  obtain ⟨-, -, hmember⟩ := of_mem_members_of_mem_types hb hm
  rw [call?, member?_eq_some_iff.mpr hmember, Option.bind_some, lambda?] at hnone
  cases hcall : lambdaOf mapping m.function.typeName m with
  | error cause => exact ⟨m, cause, hmember, hcall⟩
  | ok call => simp [hcall, Except.toOption] at hnone

/-- What becomes of the functions of a run. Their occurrences fall into three parts, and each
part is, one for one, what the reports, the failures and the lambdas are about. The lambdas are
those of the entries of the classes, whose texts the registration code consists of. -/
structure Accounted (policy : MemberPolicy) (mapping : TypeMapping)
    (functions : List NativeFunction) (result : Classification) (bindings : NativeBindings) :
    Prop where
  registrations_eq : bindings.code.registrations =
    render (openingLines bindings.hooks) ++
      bindings.classes.flatMap (fun block => render block.lines) ++ "\x7d\n"
  blocks_written : ∀ block ∈ bindings.classes, block.Written
  lambdas_eq : bindings.lambdas =
    bindings.classes.flatMap fun block => block.body.entries.flatMap Entry.lambdas
  partition : ∃ leftOut failing called,
    functions ~ leftOut ++ failing ++ called ∧
    List.Forall₂ (LeftOut policy functions) leftOut result.skipped ∧
    failing = bindings.failed.map (·.function) ∧
    (∀ d ∈ failing, ∃ m cause,
      policy.member d = .ok m ∧ lambdaOf mapping d.typeName m = .error cause) ∧
    List.Forall₂ (fun d call =>
      policy.call? mapping d = some call ∧ Calls d.qualifiedName call.code) called bindings.lambdas
  length_eq : functions.length =
    result.skipped.length + bindings.code.failed.length + bindings.lambdas.length
  names_perm : functions.map (·.qualifiedName) ~
    result.skipped.map Prod.fst ++ bindings.code.failed ++ bindings.lambdas.map (·.native)

/-- With an accepted table every occurrence of a function is accounted for once: by a report that
it was left out, by a failure, or by a lambda that calls it. -/
theorem accounted_of_ofEntries {entries : List LogicalType} {table : TypeTable}
    (h : TypeTable.ofEntries entries = .ok table) (plain : PlainTypes)
    (handWritten : HandWritten) (names : NameFilter) (functions : List NativeFunction) :
    let policy : MemberPolicy := ⟨table, handWritten, names⟩
    let mapping : TypeMapping := ⟨table, plain⟩
    let result := policy.classify functions
    Accounted policy mapping functions result (nativeBindings mapping result) := by
  intro policy mapping result
  have hnames : mapping.table.names.Nodup := TypeTable.nodup_names_of_ofEntries h
  obtain ⟨leftOut, hperm, hreports⟩ := policy.exists_leftOut functions
  obtain ⟨called, hcalled, hlambdas⟩ :=
    policy.exists_called functions hnames
  let bindings := nativeBindings mapping result
  have hall : functions ~ leftOut ++ bindings.failed.map (·.function) ++ called := by
    have hplaced : policy.placed functions ~ bindings.failed.map (·.function) ++ called := by
      refine List.Perm.trans ?_ ((failed_perm hnames).append hcalled).symm
      have hpartition := List.filter_append_perm (fun d => (policy.call? mapping d).isNone)
        (policy.placed functions)
      simpa only [Option.not_isNone] using hpartition.symm
    rw [List.append_assoc]
    exact hperm.trans (hplaced.append_left leftOut)
  have hreported : leftOut.map (·.qualifiedName) = result.skipped.map Prod.fst :=
    map_eq_map_of_forall₂ hreports fun _ _ hentry => hentry.name_eq.symm
  have hnatives : called.map (·.qualifiedName) = bindings.lambdas.map (·.native) :=
    map_eq_map_of_forall₂ hlambdas fun _ _ hcall => (native_of_call?_eq_some hcall).symm
  constructor
  case registrations_eq => exact NativeBindings.registrationCode_eq_append bindings
  case blocks_written => exact fun block _ => block.written
  case lambdas_eq => rfl
  case partition =>
    refine ⟨leftOut, _, called, hall, hreports, rfl, ?_, hlambdas.imp ?_⟩
    · exact fun d hd => exists_missing_of_mem_failed hnames hd
    · exact fun d call hcall => ⟨hcall, calls_of_call?_eq_some hcall⟩
  case length_eq =>
    have hlength := hall.length_eq
    simp only [List.length_append, List.length_map] at hlength
    rw [hreports.length_eq, hlambdas.length_eq] at hlength
    simpa [NativeBindings.code] using hlength
  case names_perm =>
    have hmap := hall.map (·.qualifiedName)
    rw [List.map_append, List.map_append, List.map_map] at hmap
    rw [hreported, hnatives] at hmap
    exact hmap

theorem accounted_stockTypes :
    let functions : List NativeFunction :=
      [⟨"PED", "Vector3*", "GET_PED_BONE", [⟨"Ped", "ped"⟩], ⟨0, 0⟩⟩,
        ⟨"PED", "void", "SET_PED_BONE", [⟨"Ped", "ped"⟩, ⟨"int", "bone"⟩], ⟨0, 0⟩⟩,
        ⟨"PED", "int", "GET_PED_HEALTH", [⟨"Ped", "ped"⟩], ⟨0, 0⟩⟩,
        ⟨"PED", "int", "_GET_PED_HEALTH", [⟨"Ped", "ped"⟩], ⟨0, 0⟩⟩,
        ⟨"MISC", "void", "_0xDEADBEEF", [], ⟨0, 0⟩⟩]
    let policy : MemberPolicy := ⟨⟨stockTypes⟩, {}, {}⟩
    let mapping : TypeMapping := ⟨⟨stockTypes⟩, {}⟩
    let result := policy.classify functions
    TypeTable.ofEntries stockTypes = .ok ⟨stockTypes⟩ ∧
      Accounted policy mapping functions result (nativeBindings mapping result) :=
  have h : TypeTable.ofEntries stockTypes = .ok ⟨stockTypes⟩ := by decide +kernel
  ⟨h, accounted_of_ofEntries h _ _ _ _⟩

end HeaderBindings.MemberPolicy
