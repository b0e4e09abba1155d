import HeaderBindings.Generator
import HeaderBindings.Proofs.Binding.Agreement
import HeaderBindings.Proofs.Binding.Bindable
import HeaderBindings.Proofs.Binding.Conservation
import HeaderBindings.Proofs.Binding.MentionedNatives

/-! # Recognition of generated code

Functions whose scopes and names are made of the characters of mentions are bound under names
without colons. With types that hold none either, the registration code read as a source gives
the natives that it binds, so generating with these as the hand-written ones leaves out just
them. -/

namespace HeaderBindings

open List Text Binding

/-! ## Exposed names -/

namespace Convention

theorem dropSegments_sublist (type t : Text) : (dropSegments type t).Sublist t := by
  fun_induction dropSegments type t with
  | case1 t rest hstart ih =>
      rw [eq_append_of_afterStart? hstart]
      exact ih.trans (List.sublist_append_right _ rest)
  | case2 t => exact List.Sublist.refl t
  | case3 t hstart underscore rest hrest ih =>
      conv_rhs => rw [← List.takeWhile_append_dropWhile (p := (· != '_')) (l := t), hrest]
      exact (ih.cons_cons underscore).append_left _

theorem bareName_sublist (function type : Text) :
    (bareName function type).Sublist (lowercase function) := by
  have hlower := (dropStart_suffix "_" (lowercase function)).sublist
  rw [bareName]
  split
  · exact hlower
  · exact (dropSegments_sublist _ _).trans hlower

theorem NamingRule.expose_suffix (rule : NamingRule) (bare : Text) :
    rule.expose bare <:+ bare := by
  rw [expose]
  split
  · exact dropStart_suffix _ bare
  · exact List.suffix_rfl

end Convention

/-- The name under which a function is exposed is made of name characters, as its own is. -/
theorem MemberPolicy.isNameChar_exposed {policy : MemberPolicy} {d : NativeFunction} {m : Member}
    (h : policy.member d = .ok m) (hname : Header.IsName d.name) :
    ∀ c ∈ m.exposed, isNameChar c = true := by
  obtain ⟨-, rfl⟩ := member_eq_ok_iff.mp h
  intro c hc
  have hbare := (Convention.NamingRule.expose_suffix _ _).subset hc
  exact isNameChar_lowercase hname.isNameChar c ((Convention.bareName_sublist _ _).subset hbare)

/-! ## Clear bindings -/

theorem IsScope.isName {t : Text} (h : IsScope t) : Header.IsName t where
  ne_nil := by
    rintro rfl
    exact absurd h.starts (by simp)
  isNameChar c hc := isNameChar_of_isScopeChar (h.isScopeChar c hc)

/-- The scope and the names of a function are made of the characters of mentions. -/
structure NativeFunction.IsMentionable (d : NativeFunction) : Prop where
  scope : IsScope d.scope
  name : Header.IsName d.name
  params : ∀ p ∈ d.params, Header.IsName p.name

instance (d : NativeFunction) : Decidable d.IsMentionable :=
  decidable_of_iff (_ ∧ _ ∧ _)
    ⟨fun h => ⟨h.1, h.2.1, h.2.2⟩, fun h => ⟨h.scope, h.name, h.params⟩⟩

/-- No type that is mapped, and none that a constructor takes, holds a colon. -/
structure TypeMapping.IsClear (mapping : TypeMapping) : Prop where
  names : ∀ e ∈ mapping.table.entries, ':' ∉ e.name
  parents : ∀ e ∈ mapping.table.entries, ∀ parent ∈ e.parent, ':' ∉ parent
  inits : ∀ e ∈ mapping.table.entries, ∀ init ∈ e.init, ':' ∉ init
  plainParams : ∀ type ∈ mapping.plain.params, ':' ∉ type
  plainReturns : ∀ type ∈ mapping.plain.returns, ':' ∉ type

theorem TypeMapping.IsClear.not_mem_of_mem_names {mapping : TypeMapping} (h : mapping.IsClear)
    {type : Text} (htype : type ∈ mapping.table.names) : ':' ∉ type := by
  obtain ⟨e, he, rfl⟩ := List.mem_map.mp htype
  exact h.names e he

namespace Binding

variable {mapping : TypeMapping} {type : Text}

theorem not_mem_of_result (hmapping : mapping.IsClear) {spelling : Text}
    (h : mapping.result type = .ok spelling) : ':' ∉ spelling := by
  rcases result_eq_ok_iff.mp h with ⟨hmem, rfl⟩ | ⟨-, hallowed, rfl⟩
  · exact not_mem_wrapperOf (hmapping.not_mem_of_mem_names hmem)
  · rcases Bool.or_eq_true_iff.mp hallowed with hparam | hreturn
    · exact hmapping.plainParams spelling (by simpa [PlainTypes.allowsParameter] using hparam)
    · exact hmapping.plainReturns spelling (by simpa using hreturn)

theorem isClear_of_lambdaOf (hmapping : mapping.IsClear) {m : Member}
    (hm : m.function.IsMentionable) {call : Lambda} (h : lambdaOf mapping type m = .ok call) :
    call.IsClear := by
  obtain ⟨params, hparams, h⟩ := bind_eq_ok_iff.mp h
  obtain ⟨result, hresult, h⟩ := bind_eq_ok_iff.mp h
  obtain rfl := Except.ok.inj h
  have hparam : ∀ p ∈ params, ':' ∉ p.type ∧ ':' ∉ p.name := by
    intro p hp
    obtain ⟨_, declared, q, hq, hparam⟩ := exists_param_of_mem_boundParameters hparams hp
    have hname : ':' ∉ q.name := not_mem_of_isNameChar (hm.params q hq).isNameChar
    rcases param_eq_ok_iff.mp hparam with ⟨hmem, rfl⟩ | ⟨-, hplain, rfl⟩
    · exact ⟨hmapping.not_mem_of_mem_names hmem, hname⟩
    · exact ⟨hmapping.plainParams declared hplain, hname⟩
  exact ⟨⟨_, _, hm.scope, hm.name, rfl⟩, fun p hp => (hparam p hp).1, fun p hp => (hparam p hp).2,
    not_mem_of_result hmapping hresult⟩

/-- A member is clear if its function can be mentioned and its exposed name holds no colon. -/
structure IsClearMember (m : Member) : Prop where
  function : m.function.IsMentionable
  exposed : ':' ∉ m.exposed

theorem isClear_of_bindMember (hmapping : mapping.IsClear) {entry : Text → Lambda → Entry}
    (hword : ∀ name call, (entry name call).word = name)
    (hlambdas : ∀ name call, (entry name call).lambdas = [call]) {m : Member}
    (hm : IsClearMember m) : ∀ e ∈ (bindMember mapping type entry m).entries, e.IsClear := by
  rw [bindMember]
  split
  next call hcall =>
    refine List.forall_mem_singleton.mpr ⟨?_, ?_⟩
    · rw [hword]
      exact hm.exposed
    · rw [hlambdas, List.forall_mem_singleton]
      exact isClear_of_lambdaOf hmapping hm.function hcall
  next => exact List.forall_mem_nil _

theorem isClear_of_bindProperty (hmapping : mapping.IsClear) {p : Property}
    (hname : ':' ∉ p.name) (hgetter : IsClearMember p.getter)
    (hsetter : ∀ s ∈ p.setter, IsClearMember s) :
    ∀ e ∈ (bindProperty mapping type p).entries, e.IsClear := by
  rw [bindProperty]
  split
  next => exact List.forall_mem_nil _
  next getter hget =>
    have hread : getter.IsClear := isClear_of_lambdaOf hmapping hgetter.function hget
    have hreadonly : ∀ e ∈ [Entry.readonly p.name getter], e.IsClear :=
      List.forall_mem_singleton.mpr ⟨hname, List.forall_mem_singleton.mpr hread⟩
    split
    next => exact hreadonly
    next s hs =>
      split
      next setter hset =>
        have hwrite : setter.IsClear :=
          isClear_of_lambdaOf hmapping (hsetter s hs).function hset
        exact List.forall_mem_singleton.mpr ⟨hname, List.forall_mem_cons.mpr
          ⟨hread, List.forall_mem_singleton.mpr hwrite⟩⟩
      next => exact hreadonly

theorem isClear_of_classBody (hmapping : mapping.IsClear) {b : TypeMembers} (hb : b.Ordered)
    (h : ∀ m ∈ b.members, IsClearMember m) :
    ∀ e ∈ (classBody mapping type b).entries, e.IsClear := by
  have hkind : ∀ kind, ∀ m ∈ b.ofKind kind, IsClearMember m := fun kind m hm =>
    h m (TypeMembers.mem_members_iff.mpr ⟨kind, hm⟩)
  rw [entries_classBody]
  simp only [List.forall_mem_append, List.forall_mem_flatMap]
  refine ⟨⟨⟨?_, ?_⟩, ?_⟩, ?_⟩
  · intro g hg
    have hgetter := hkind .getter g hg
    exact isClear_of_bindProperty hmapping hgetter.exposed hgetter fun s hs =>
      hkind .setter s (Keyed.mem_of_find?_eq_some hs)
  · intro s hs
    exact isClear_of_bindMember hmapping (fun _ _ => rfl) (fun _ _ => rfl)
      (hkind .setter s ((mem_plainSetters_iff hb).mp hs).1)
  · intro m hm
    exact isClear_of_bindMember hmapping (fun _ _ => rfl) (fun _ _ => rfl) (hkind .method m hm)
  · intro m hm
    exact isClear_of_bindMember hmapping (fun _ _ => rfl) (fun _ _ => rfl) (hkind .static m hm)

variable {policy : MemberPolicy} {functions : List NativeFunction}

theorem isClear_of_memberBody (hmapping : mapping.IsClear)
    (h : ∀ d ∈ functions, d.IsMentionable) (type : Text) :
    ∀ e ∈ (memberBody mapping (policy.classify functions).types type).entries, e.IsClear := by
  rw [memberBody_classify]
  refine isClear_of_classBody hmapping (policy.ordered_gather type functions) fun m hm => ?_
  obtain ⟨hmem, -, hmember⟩ := MemberPolicy.of_mem_gather hm
  have hfunction := h m.function hmem
  exact ⟨hfunction,
    not_mem_of_isNameChar (MemberPolicy.isNameChar_exposed hmember hfunction.name)⟩

theorem isClear_nativeBindings (hmapping : mapping.IsClear)
    (h : ∀ d ∈ functions, d.IsMentionable) (policy : MemberPolicy) :
    (nativeBindings mapping (policy.classify functions)).IsClear := by
  have hnamespace : ∀ type ∈ namespaceTypes mapping (policy.classify functions), ':' ∉ type := by
    intro type htype
    obtain ⟨-, d, hd, rfl⟩ := mem_namespaceTypes_classify.mp htype
    exact not_mem_of_isNameChar (NativeFunction.isName_typeName (h d hd).scope.isName).isNameChar
  refine ⟨?_, List.forall_mem_append.mpr ⟨?_, ?_⟩⟩
  · intro type htype
    rcases List.mem_append.mp (Keyed.mem_ofList.mp htype) with htype | htype
    · exact hmapping.not_mem_of_mem_names htype
    · exact hnamespace type htype
  · intro block hblock
    obtain ⟨e, he, rfl⟩ := List.mem_map.mp hblock
    refine ⟨hmapping.names e he, hmapping.parents e he, List.forall_mem_append.mpr ⟨?_, ?_⟩⟩
    · intro entry hentry
      obtain ⟨init, hinit, rfl⟩ := List.mem_map.mp hentry
      exact ⟨hmapping.inits e he init (Option.mem_toList.mp hinit), List.forall_mem_nil _⟩
    · exact isClear_of_memberBody hmapping h e.name
  · intro block hblock
    obtain ⟨type, htype, rfl⟩ := List.mem_map.mp hblock
    exact ⟨hnamespace type htype, fun _ hparent => absurd hparent (Option.not_mem_none _),
      isClear_of_memberBody hmapping h type⟩

end Binding

/-! ## Generating again -/

theorem isClear_stockTypes : TypeMapping.IsClear ⟨⟨stockTypes⟩, {}⟩ where
  names := by decide
  parents := by decide
  inits := by decide
  plainParams := by decide
  plainReturns := by decide

namespace MemberPolicy

variable {policy : MemberPolicy} {mapping : TypeMapping} {functions : List NativeFunction}

/-- The functions that are bound: they hold a place, and their types have mappings. -/
def bound (policy : MemberPolicy) (mapping : TypeMapping) (functions : List NativeFunction) :
    List NativeFunction :=
  (policy.placed functions).filter fun d => (policy.call? mapping d).isSome

/-- The same policy with the natives that a source mentions as the hand-written ones. -/
def reading (policy : MemberPolicy) (source : Text) : MemberPolicy :=
  { policy with handWritten := HandWritten.addMentions source {} }

theorem mem_of_mem_bound {d : NativeFunction} (h : d ∈ policy.bound mapping functions) :
    d ∈ functions := by
  obtain ⟨m, hm, rfl⟩ := List.mem_map.mp (List.mem_of_mem_filter h)
  obtain ⟨b, hb, hm⟩ := List.mem_flatMap.mp hm
  exact (of_mem_members_of_mem_types hb hm).1

/-- Read as a source, generated code gives the natives that it binds. -/
structure Recognised (policy : MemberPolicy) (mapping : TypeMapping)
    (functions : List NativeFunction) (source : Text) : Prop where
  /-- The code mentions the natives that are called, call by call. -/
  mentions_eq : mentions none source =
    (nativeBindings mapping (policy.classify functions)).lambdas.map (·.native)
  mentions_perm : mentions none source ~ (policy.bound mapping functions).map (·.qualifiedName)
  mem_names_iff : ∀ name, name ∈ (HandWritten.addMentions source {}).names ↔
    ∃ d ∈ policy.bound mapping functions, d.qualifiedName = name
  /-- Each function that was bound is left out next time, for being hand-written. -/
  member_eq : ∀ d ∈ policy.bound mapping functions,
    (policy.reading source).member d = .error .handWritten
  skipped_iff : ∀ name,
    (name, .handWritten) ∈ ((policy.reading source).classify functions).skipped ↔
      ∃ d ∈ policy.bound mapping functions, d.qualifiedName = name
  not_bound : ∀ d ∈ policy.bound mapping functions,
    let bindings := nativeBindings mapping ((policy.reading source).classify functions)
    d.qualifiedName ∉ bindings.lambdas.map (·.native) ∧ d.qualifiedName ∉ bindings.code.failed

theorem map_native_lambdas_perm (hnames : mapping.table.names.Nodup) :
    (nativeBindings mapping (policy.classify functions)).lambdas.map (·.native) ~
      (policy.bound mapping functions).map (·.qualifiedName) := by
  obtain ⟨called, hcalled, hlambdas⟩ := policy.exists_called functions hnames
  rw [← map_eq_map_of_forall₂ hlambdas fun _ _ hcall => (native_of_call?_eq_some hcall).symm]
  exact hcalled.map _

theorem recognised_of_mentions_eq {source : Text} (hnames : mapping.table.names.Nodup)
    (h : mentions none source =
      (nativeBindings mapping (policy.classify functions)).lambdas.map (·.native)) :
    policy.Recognised mapping functions source := by
  have hperm : mentions none source ~ (policy.bound mapping functions).map (·.qualifiedName) := by
    rw [h]
    exact map_native_lambdas_perm hnames
  have hmem : ∀ name, name ∈ (HandWritten.addMentions source {}).names ↔
      ∃ d ∈ policy.bound mapping functions, d.qualifiedName = name := by
    intro name
    rw [HandWritten.mem_names_addMentions_iff, hperm.mem_iff, List.mem_map]
    simp
  have hagain : ∀ d ∈ policy.bound mapping functions,
      d.qualifiedName ∈ (policy.reading source).handWritten.names := fun d hd =>
    (hmem d.qualifiedName).mpr ⟨d, hd, rfl⟩
  refine ⟨h, hperm, hmem, fun d hd => ?_, fun name => ?_, fun d hd => ?_⟩
  · exact member_eq_error_iff.mpr (NameFilter.omission?_of_mem (hagain d hd))
  · rw [mem_skipped_classify_iff (by simp)]
    constructor
    · rintro ⟨d, -, hverdict, rfl⟩
      exact (hmem d.qualifiedName).mp (NameFilter.omission?_eq_handWritten_iff.mp hverdict)
    · rintro ⟨d, hd, rfl⟩
      exact ⟨d, mem_of_mem_bound hd, NameFilter.omission?_of_mem (hagain d hd), rfl⟩
  · exact not_bound_of_mem_names (hagain d hd)

/-- With the types that are registered by default, the code that is generated for natives is
recognised, whatever the functions are. -/
theorem exists_recognised (output : OutputSelection) (names : NameFilter)
    (handWritten : HandWritten) {functions : List NativeFunction}
    (h : ∀ d ∈ functions, d.IsMentionable) :
    ∃ g, Generator.ofConfig { output, names } = .ok g ∧
      (g.policy handWritten).Recognised g.mapping functions
        (nativeCode g.mapping ((g.policy handWritten).classify functions)).registrations := by
  have htable : TypeTable.ofEntries stockTypes = .ok ⟨stockTypes⟩ := by decide +kernel
  have hg : Generator.ofConfig { output, names } =
      .ok ⟨{ output, names }, ⟨stockTypes⟩⟩ := by
    rw [Generator.ofConfig, Config.table, htable]
    rfl
  refine ⟨_, hg, recognised_of_mentions_eq (TypeTable.nodup_names_of_ofEntries htable) ?_⟩
  exact (isClear_nativeBindings isClear_stockTypes h _).mentions_eq

/-- A property, a function that fails and one whose namespace is no registered type. -/
theorem exists_recognised_health :
    let functions : List NativeFunction :=
      [⟨"PED", "int", "GET_PED_HEALTH", [⟨"Ped", "ped"⟩], ⟨0, 9⟩⟩,
        ⟨"PED", "void", "SET_PED_HEALTH", [⟨"Ped", "ped"⟩, ⟨"int", "health"⟩], ⟨9, 19⟩⟩,
        ⟨"PED", "Vector3*", "GET_PED_BONE", [⟨"Ped", "ped"⟩], ⟨19, 29⟩⟩,
        ⟨"GAME_2", "BOOL", "IS_PAUSED", [], ⟨29, 39⟩⟩]
    (∀ d ∈ functions, d.IsMentionable) ∧
      ∃ g, Generator.ofConfig {} = .ok g ∧
        (g.policy {}).Recognised g.mapping functions
          (nativeCode g.mapping ((g.policy {}).classify functions)).registrations :=
  have h : ∀ d ∈ _, NativeFunction.IsMentionable d := by decide
  ⟨h, exists_recognised {} {} {} h⟩

end MemberPolicy

end HeaderBindings
