import HeaderBindings.Proofs.Binding.Blocks

/-! # Independence of types

The functions of one type never show in the block of another: each block and its failures are
those that the functions of the type give by themselves. -/

namespace HeaderBindings.MemberPolicy

open List Binding

variable {policy : MemberPolicy} {mapping : TypeMapping} {functions : List NativeFunction}

/-- The functions whose namespaces stand for a type, in source order. -/
def ownFunctions (type : Text) (functions : List NativeFunction) : List NativeFunction :=
  functions.filter (·.typeName = type)

theorem exists_mem_ownFunctions_iff {type other : Text} :
    (∃ d ∈ ownFunctions type functions, d.typeName = other) ↔
      other = type ∧ ∃ d ∈ functions, d.typeName = type := by
  simp only [ownFunctions, List.mem_filter, decide_eq_true_eq]
  constructor
  · rintro ⟨d, ⟨hd, htype⟩, rfl⟩
    exact ⟨htype, d, hd, htype⟩
  · rintro ⟨rfl, d, hd, htype⟩
    exact ⟨d, ⟨hd, htype⟩, htype⟩

theorem gather_ownFunctions (type : Text) :
    policy.gather type (ownFunctions type functions) = policy.gather type functions := by
  simp [gather, ownFunctions]

variable (policy mapping functions) in
theorem blockLines_ownFunctions (type : Text) :
    (nativeBindings mapping (policy.classify (ownFunctions type functions))).blockLines type =
      (nativeBindings mapping (policy.classify functions)).blockLines type := by
  refine blockLines_congr ?_ ?_
  · rw [mem_namespaceTypes_classify, mem_namespaceTypes_classify, exists_mem_ownFunctions_iff]
    simp
  · rw [memberBody_classify, memberBody_classify, gather_ownFunctions]

theorem flatMap_eq_of_forall_ne {α β : Type} {l : List α} {a : α} {f : α → List β}
    (hnodup : l.Nodup) (ha : a ∈ l) (h : ∀ b ∈ l, b ≠ a → f b = []) : l.flatMap f = f a := by
  obtain ⟨front, back, rfl⟩ := List.append_of_mem ha
  rw [List.nodup_middle, List.nodup_cons] at hnodup
  have hother : ∀ b ∈ front ++ back, f b = [] := fun b hb =>
    h b (by simp only [List.mem_append, List.mem_cons] at hb ⊢; tauto)
      fun heq => hnodup.1 (heq ▸ hb)
  obtain ⟨hfront, hback⟩ := List.forall_mem_append.mp hother
  rw [List.flatMap_append, List.flatMap_cons, List.flatMap_eq_nil_iff.mpr hfront,
    List.flatMap_eq_nil_iff.mpr hback, List.nil_append, List.append_nil]

/-- The functions of one type fail only in its own class. -/
theorem failed_ownFunctions (h : mapping.table.names.Nodup) {type : Text}
    (htype : type ∈ emissionOrder mapping (policy.classify functions)) :
    (nativeBindings mapping (policy.classify (ownFunctions type functions))).failed =
      (memberBody mapping (policy.classify functions).types type).failed := by
  have hmem : type ∈ emissionOrder mapping (policy.classify (ownFunctions type functions)) := by
    rw [emissionOrder, List.mem_append, mem_namespaceTypes_classify] at htype ⊢
    rw [exists_mem_ownFunctions_iff]
    simpa using htype
  have hother : ∀ other ∈ emissionOrder mapping (policy.classify (ownFunctions type functions)),
      other ≠ type →
        (memberBody mapping (policy.classify (ownFunctions type functions)).types other).failed =
          [] := by
    intro other _ hne
    have hnone : ∀ d ∈ ownFunctions type functions, d.typeName ≠ other := by
      intro d hd heq
      exact hne (exists_mem_ownFunctions_iff.mp ⟨d, hd, heq⟩).1
    rw [memberBody_classify, gather_eq_empty_of_forall_ne hnone]
    rfl
  rw [failed_nativeBindings, flatMap_eq_of_forall_ne (nodup_emissionOrder h) hmem hother,
    memberBody_classify, memberBody_classify, gather_ownFunctions]

/-- The registration code is made of one block for each type, and neither the block of a type nor
its failures depend on the functions of other types. -/
structure BlocksIndependent (policy : MemberPolicy) (mapping : TypeMapping)
    (functions : List NativeFunction) : Prop where
  /-- No type has two blocks. -/
  nodup_order : (emissionOrder mapping (policy.classify functions)).Nodup
  /-- The code is an opening, the blocks in order and a closing line. -/
  registrations_eq : (nativeCode mapping (policy.classify functions)).registrations =
    render (openingLines (nativeBindings mapping (policy.classify functions)).hooks ++
      (emissionOrder mapping (policy.classify functions)).flatMap
        (nativeBindings mapping (policy.classify functions)).blockLines ++ [closingLine])
  blockLines_eq : ∀ type ∈ emissionOrder mapping (policy.classify functions),
    (nativeBindings mapping (policy.classify functions)).blockLines type =
      (nativeBindings mapping (policy.classify (ownFunctions type functions))).blockLines type
  failed_eq : (nativeCode mapping (policy.classify functions)).failed =
    (emissionOrder mapping (policy.classify functions)).flatMap fun type =>
      (nativeCode mapping (policy.classify (ownFunctions type functions))).failed

/-- With an accepted table the block of every type is that of its own functions, and the failures
are those of the types one after the other. -/
theorem blocksIndependent_of_ofEntries {entries : List LogicalType} {table : TypeTable}
    (h : TypeTable.ofEntries entries = .ok table) (plain : PlainTypes)
    (handWritten : HandWritten) (names : NameFilter) (functions : List NativeFunction) :
    BlocksIndependent ⟨table, handWritten, names⟩ ⟨table, plain⟩ functions := by
  have hnames : table.names.Nodup := TypeTable.nodup_names_of_ofEntries h
  refine ⟨nodup_emissionOrder hnames, ?_, ?_, ?_⟩
  · rw [← codeLines_nativeBindings hnames, ← NativeBindings.registrationCode_eq_render]
    rfl
  · intro type _
    exact (blockLines_ownFunctions _ _ functions type).symm
  · have hfailed : ∀ c : Classification, (nativeCode ⟨table, plain⟩ c).failed =
        (nativeBindings ⟨table, plain⟩ c).failed.map (·.function.qualifiedName) := fun _ => rfl
    rw [hfailed, failed_nativeBindings, List.map_flatMap]
    refine List.flatMap_congr ?_
    intro type htype
    rw [hfailed, failed_ownFunctions hnames htype]

/-- Two namespaces of one type whose functions alternate with those of an unregistered one, and
one failure in each type. -/
theorem blocksIndependent_interleaved :
    let functions : List NativeFunction :=
      [⟨"Ped", "void", "SET_PED_ARMOUR", [⟨"Ped", "ped"⟩, ⟨"int", "amount"⟩], ⟨0, 9⟩⟩,
        ⟨"MISC", "Any*", "GET_BUFFER", [], ⟨9, 19⟩⟩,
        ⟨"PED", "int*", "GET_PED_ARMOUR", [⟨"Ped", "ped"⟩], ⟨19, 29⟩⟩,
        ⟨"MISC", "int", "GET_GAME_TIMER", [], ⟨29, 39⟩⟩]
    TypeTable.ofEntries stockTypes = .ok ⟨stockTypes⟩ ∧
      BlocksIndependent ⟨⟨stockTypes⟩, {}, {}⟩ ⟨⟨stockTypes⟩, {}⟩ functions :=
  have h : TypeTable.ofEntries stockTypes = .ok ⟨stockTypes⟩ := by decide +kernel
  ⟨h, blocksIndependent_of_ofEntries h {} {} {} _⟩

end HeaderBindings.MemberPolicy
