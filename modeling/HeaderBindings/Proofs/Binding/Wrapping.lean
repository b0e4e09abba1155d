import HeaderBindings.Proofs.Binding.Agreement
import HeaderBindings.Proofs.Binding.EntryLines
import HeaderBindings.Proofs.Convention.Kinds

/-! # Lambdas of members

A lambda has a parameter for each parameter of its native. The first one takes the object, if the
member has an owner and the native does not want a pointer there; the others follow the types that
are declared. A type without a mapping fails the lambda, and the first such parameter is
reported. -/

namespace HeaderBindings

open List

/-! ## Types with a mapping -/

namespace TypeMapping

variable {mapping : TypeMapping} {type : Text}

/-- A parameter may have the type: it is registered or passes as it is. -/
def MapsParameter (mapping : TypeMapping) (type : Text) : Prop :=
  type ∈ mapping.table.names ∨ type ∈ mapping.plain.params

/-- A result may have the type. -/
def MapsResult (mapping : TypeMapping) (type : Text) : Prop :=
  type ∈ mapping.table.names ∨ type ∈ mapping.plain.params ∨ type ∈ mapping.plain.returns

theorem param_of_mapsParameter (h : mapping.MapsParameter type) (index : Nat) (name : Text) :
    mapping.param index type name = .ok ⟨type, mapping.table.contains type, name⟩ := by
  rw [Binding.param_eq_ok_iff, ← TypeTable.contains_iff]
  rw [MapsParameter, ← TypeTable.contains_iff] at h
  cases hcontains : mapping.table.contains type with
  | true => simp
  | false => simpa [hcontains] using h

theorem param_of_not_mapsParameter (h : ¬ mapping.MapsParameter type) (index : Nat)
    (name : Text) : mapping.param index type name = .error (.parameter index type) := by
  rw [MapsParameter, not_or, ← TypeTable.contains_iff] at h
  simp [param, PlainTypes.allowsParameter, h]

theorem result_of_mapsResult (h : mapping.MapsResult type) :
    mapping.result type =
      .ok (if mapping.table.contains type then wrapperOf type else type) := by
  rw [MapsResult, ← TypeTable.contains_iff] at h
  rw [result]
  cases hcontains : mapping.table.contains type with
  | true => rfl
  | false =>
      have hplain := h.resolve_left (by simp [hcontains])
      simpa [PlainTypes.allowsResult, PlainTypes.allowsParameter, or_iff_not_imp_left] using hplain

theorem result_of_not_mapsResult (h : ¬ mapping.MapsResult type) :
    mapping.result type = .error (.result type) := by
  rw [MapsResult, not_or, not_or, ← TypeTable.contains_iff] at h
  simp [result, PlainTypes.allowsResult, PlainTypes.allowsParameter, h]

end TypeMapping

namespace Binding

variable {mapping : TypeMapping} {type : Text} {m : Member}

/-! ## Types of the parameters of a lambda -/

/-- The types under which the parameters of a member are mapped. The first one of a member with an
owner is the object, unless a pointer is declared. -/
def effectiveTypes (type : Text) (m : Member) : List Text :=
  match m.function.params with
  | [] => []
  | first :: others =>
    (if m.kind ≠ .static ∧ first.type.getLast? ≠ some '*' then type else first.type) ::
      others.map (·.type)

/-- The types under which parameters are mapped, from a position on. -/
def typesFrom (type : Text) (m : Member) : Nat → List Parameter → List Text
  | _, [] => []
  | index, p :: others => effectiveType type m index p :: typesFrom type m (index + 1) others

theorem typesFrom_succ (type : Text) (m : Member) (index : Nat) (params : List Parameter) :
    typesFrom type m (index + 1) params = params.map (·.type) := by
  induction params generalizing index with
  | nil => rfl
  | cons p params ih => rw [typesFrom, ih, List.map_cons]; rfl

theorem typesFrom_zero (type : Text) (m : Member) :
    typesFrom type m 0 m.function.params = effectiveTypes type m := by
  rw [effectiveTypes]
  cases m.function.params with
  | nil => rfl
  | cons first others =>
      rw [typesFrom, typesFrom_succ]
      congr 1
      simp [effectiveType, Member.takesOwner, Parameter.isPointer]

/-! ## Runs over the parameters -/

/-- A parameter of a lambda for a parameter of its native. -/
def boundAs (mapping : TypeMapping) (type : Text) (p : Parameter) : BoundParameter :=
  ⟨type, mapping.table.contains type, p.name⟩

theorem boundParameters_of_forall {index : Nat} {params : List Parameter}
    (h : ∀ t ∈ typesFrom type m index params, mapping.MapsParameter t) :
    boundParameters mapping type m index params =
      .ok (List.zipWith (boundAs mapping) (typesFrom type m index params) params) := by
  induction params generalizing index with
  | nil => rfl
  | cons p params ih =>
      obtain ⟨hfirst, hothers⟩ := List.forall_mem_cons.mp h
      rw [boundParameters, TypeMapping.param_of_mapsParameter hfirst, ok_bind, ih hothers]
      rfl

theorem boundParameters_of_split {index : Nat} {params : List Parameter} {front back : List Text}
    {t : Text} (hsplit : typesFrom type m index params = front ++ t :: back)
    (hfront : ∀ t' ∈ front, mapping.MapsParameter t') (ht : ¬ mapping.MapsParameter t) :
    boundParameters mapping type m index params =
      .error (.parameter (index + front.length) t) := by
  induction params generalizing index front with
  | nil => exact absurd hsplit (by simp [typesFrom])
  | cons p params ih =>
      rw [typesFrom] at hsplit
      cases front with
      | nil =>
          obtain ⟨rfl, -⟩ := List.cons.inj hsplit
          rw [boundParameters, TypeMapping.param_of_not_mapsParameter ht]
          rfl
      | cons first front =>
          obtain ⟨rfl, hothers⟩ := List.cons.inj hsplit
          obtain ⟨hfirst, hfront⟩ := List.forall_mem_cons.mp hfront
          rw [boundParameters, TypeMapping.param_of_mapsParameter hfirst, ok_bind,
            ih hothers hfront, List.length_cons, Nat.add_right_comm, Nat.add_assoc]
          rfl

theorem exists_split_of_not_forall {α : Type} {test : α → Prop} {l : List α}
    (h : ¬ ∀ a ∈ l, test a) :
    ∃ front a back, l = front ++ a :: back ∧ (∀ b ∈ front, test b) ∧ ¬ test a := by
  classical
  push Not at h
  obtain ⟨a, ha, hfails⟩ := h
  have hsome : (l.find? fun a => decide (¬ test a)).isSome := by
    rw [List.find?_isSome]
    exact ⟨a, ha, decide_eq_true hfails⟩
  obtain ⟨first, hfirst⟩ := Option.isSome_iff_exists.mp hsome
  obtain ⟨hfirst, front, back, hsplit, hfront⟩ := List.find?_eq_some_iff_append.mp hfirst
  exact ⟨front, first, back, hsplit, by simpa using hfront, of_decide_eq_true hfirst⟩

/-! ## Lambdas -/

/-- The lambda of a member whose types have mappings. -/
def wrapped (mapping : TypeMapping) (type : Text) (m : Member) : Lambda where
  params := List.zipWith (boundAs mapping) (effectiveTypes type m) m.function.params
  result :=
    if mapping.table.contains m.function.result then wrapperOf m.function.result
    else m.function.result
  native := m.function.qualifiedName

theorem lambdaOf_of_split {front back : List Text} {t : Text}
    (hsplit : effectiveTypes type m = front ++ t :: back)
    (hfront : ∀ t' ∈ front, mapping.MapsParameter t') (ht : ¬ mapping.MapsParameter t) :
    lambdaOf mapping type m = .error (.parameter front.length t) := by
  rw [← typesFrom_zero] at hsplit
  rw [lambdaOf, boundParameters_of_split hsplit hfront ht, Nat.zero_add]
  rfl

/-- The three ends of the mapping of a member. -/
theorem lambdaOf_cases (mapping : TypeMapping) (type : Text) (m : Member) :
    ((∀ t ∈ effectiveTypes type m, mapping.MapsParameter t) ∧
        mapping.MapsResult m.function.result ∧
        lambdaOf mapping type m = .ok (wrapped mapping type m)) ∨
      ((∀ t ∈ effectiveTypes type m, mapping.MapsParameter t) ∧
        ¬ mapping.MapsResult m.function.result ∧
        lambdaOf mapping type m = .error (.result m.function.result)) ∨
      ∃ front t back, effectiveTypes type m = front ++ t :: back ∧
        (∀ t' ∈ front, mapping.MapsParameter t') ∧ ¬ mapping.MapsParameter t ∧
        lambdaOf mapping type m = .error (.parameter front.length t) := by
  by_cases hparams : ∀ t ∈ effectiveTypes type m, mapping.MapsParameter t
  · have hbound : boundParameters mapping type m 0 m.function.params = .ok _ :=
      boundParameters_of_forall (by rwa [typesFrom_zero])
    rw [typesFrom_zero] at hbound
    by_cases hresult : mapping.MapsResult m.function.result
    · refine .inl ⟨hparams, hresult, ?_⟩
      rw [lambdaOf, hbound, ok_bind, TypeMapping.result_of_mapsResult hresult]
      rfl
    · refine .inr (.inl ⟨hparams, hresult, ?_⟩)
      rw [lambdaOf, hbound, ok_bind, TypeMapping.result_of_not_mapsResult hresult]
      rfl
  · obtain ⟨front, t, back, hsplit, hfront, ht⟩ := exists_split_of_not_forall hparams
    exact .inr (.inr ⟨front, t, back, hsplit, hfront, ht, lambdaOf_of_split hsplit hfront ht⟩)

theorem lambdaOf_eq_ok_iff {call : Lambda} :
    lambdaOf mapping type m = .ok call ↔
      (∀ t ∈ effectiveTypes type m, mapping.MapsParameter t) ∧
        mapping.MapsResult m.function.result ∧ call = wrapped mapping type m := by
  rcases lambdaOf_cases mapping type m with ⟨hparams, hresult, hcall⟩ | ⟨-, hresult, hcall⟩ |
    ⟨front, t, back, hsplit, -, ht, hcall⟩
  · rw [hcall, Except.ok.injEq, eq_comm]
    exact ⟨fun h => ⟨hparams, hresult, h⟩, fun h => h.2.2⟩
  · rw [hcall]
    exact iff_of_false (by simp) fun h => hresult h.2.1
  · rw [hcall]
    exact iff_of_false (by simp) fun h => ht (h.1 t (by simp [hsplit]))

theorem eq_wrapped_of_lambdaOf_eq_ok {call : Lambda} (h : lambdaOf mapping type m = .ok call) :
    call = wrapped mapping type m := (lambdaOf_eq_ok_iff.mp h).2.2

theorem lambdaOf_eq_error_result_iff {t : Text} :
    lambdaOf mapping type m = .error (.result t) ↔
      (∀ t ∈ effectiveTypes type m, mapping.MapsParameter t) ∧
        ¬ mapping.MapsResult m.function.result ∧ t = m.function.result := by
  rcases lambdaOf_cases mapping type m with ⟨-, hresult, hcall⟩ | ⟨hparams, hresult, hcall⟩ |
    ⟨front, t', back, hsplit, -, ht, hcall⟩
  · rw [hcall]
    exact iff_of_false (by simp) fun h => h.2.1 hresult
  · rw [hcall, Except.error.injEq, MissingMapping.result.injEq, eq_comm]
    exact ⟨fun h => ⟨hparams, hresult, h⟩, fun h => h.2.2⟩
  · rw [hcall]
    exact iff_of_false (by simp) fun h => ht (h.1 t' (by simp [hsplit]))

theorem lambdaOf_eq_error_parameter_iff {index : Nat} {t : Text} :
    lambdaOf mapping type m = .error (.parameter index t) ↔
      ∃ front back, effectiveTypes type m = front ++ t :: back ∧ front.length = index ∧
        (∀ t' ∈ front, mapping.MapsParameter t') ∧ ¬ mapping.MapsParameter t := by
  constructor
  · intro h
    rcases lambdaOf_cases mapping type m with ⟨-, -, hcall⟩ | ⟨-, -, hcall⟩ |
      ⟨front, t', back, hsplit, hfront, ht, hcall⟩
    · cases hcall.symm.trans h
    · cases hcall.symm.trans h
    · cases hcall.symm.trans h
      exact ⟨front, back, hsplit, rfl, hfront, ht⟩
  · rintro ⟨front, back, hsplit, rfl, hfront, ht⟩
    exact lambdaOf_of_split hsplit hfront ht

/-! ## Members of a classification -/

/-- A parameter of a lambda takes the wrapper of a registered type and passes its handle on; any
other it takes as declared and passes on as it is. -/
structure Passes (table : TypeTable) (t : Text) (p : Parameter) (q : BoundParameter) : Prop where
  of_mem (h : t ∈ table.names) :
    q.declaration = wrapperOf t ++ " " ++ p.name ∧ q.argument = p.name ++ ".id"
  of_not_mem (h : t ∉ table.names) :
    q.declaration = p.type ++ " " ++ p.name ∧ q.argument = p.name

/-- What a lambda takes for a parameter that is mapped under a type. -/
def takenAs (table : TypeTable) (t : Text) (p : Parameter) : Text :=
  (if table.contains t then "Py_" ++ t else p.type) ++ " " ++ p.name

/-- What a lambda passes on for a parameter that is mapped under a type. -/
def passedAs (table : TypeTable) (t : Text) (p : Parameter) : Text :=
  if table.contains t then p.name ++ ".id" else p.name

/-- The type that a lambda returns. -/
def returnedAs (table : TypeTable) (t : Text) : Text :=
  if table.contains t then "Py_" ++ t else t

/-- The first parameter of a lambda is an object of the type, unless a pointer is declared. -/
def TakesObject (type : Text) (m : Member) (call : Lambda) : Prop :=
  ∃ p q, m.function.params.head? = some p ∧ call.params.head? = some q ∧
    (p.type.getLast? ≠ some '*' →
      q.declaration = wrapperOf type ++ " " ++ p.name ∧ q.argument = p.name ++ ".id")

variable (mapping type m) in
/-- When a member has a lambda, which failure it has otherwise, and what the lambda takes and
passes on. -/
structure WrapsExactly : Prop where
  ok_iff : (∃ call, lambdaOf mapping type m = .ok call) ↔
    (∀ t ∈ effectiveTypes type m, mapping.MapsParameter t) ∧
      mapping.MapsResult m.function.result
  error_parameter_iff : ∀ index t, lambdaOf mapping type m = .error (.parameter index t) ↔
    ∃ front back, effectiveTypes type m = front ++ t :: back ∧ front.length = index ∧
      (∀ t' ∈ front, mapping.MapsParameter t') ∧ ¬ mapping.MapsParameter t
  error_result_iff : ∀ t, lambdaOf mapping type m = .error (.result t) ↔
    (∀ t ∈ effectiveTypes type m, mapping.MapsParameter t) ∧
      ¬ mapping.MapsResult m.function.result ∧ t = m.function.result
  native_eq : ∀ call, lambdaOf mapping type m = .ok call →
    call.native = m.function.qualifiedName
  length_params : ∀ call, lambdaOf mapping type m = .ok call →
    call.params.length = m.function.params.length
  code_eq : ∀ call, lambdaOf mapping type m = .ok call →
    call.code = lambdaText
      (List.zipWith (takenAs mapping.table) (effectiveTypes type m) m.function.params)
      (returnedAs mapping.table m.function.result)
      (m.function.scope ++ "::" ++ m.function.name)
      (List.zipWith (passedAs mapping.table) (effectiveTypes type m) m.function.params)
  passes : ∀ call, lambdaOf mapping type m = .ok call → ∀ (index : Nat) p t q,
    m.function.params[index]? = some p → (effectiveTypes type m)[index]? = some t →
      call.params[index]? = some q → Passes mapping.table t p q
  takesObject : m.kind ≠ .static → ∀ call, lambdaOf mapping type m = .ok call →
    TakesObject type m call

theorem length_effectiveTypes (type : Text) (m : Member) :
    (effectiveTypes type m).length = m.function.params.length := by
  rw [effectiveTypes]
  cases m.function.params <;> simp

theorem eq_type_of_getElem? {index : Nat} {p : Parameter} {t : Text}
    (hp : m.function.params[index]? = some p) (ht : (effectiveTypes type m)[index]? = some t) :
    t = p.type ∨ m.kind ≠ .static ∧ t = type := by
  rw [effectiveTypes] at ht
  cases hparams : m.function.params with
  | nil => simp [hparams] at hp
  | cons first others =>
      rw [hparams] at hp ht
      cases index with
      | zero =>
          obtain rfl := Option.some.inj hp
          obtain rfl := Option.some.inj ht
          split
          next hobject => exact .inr ⟨hobject.1, rfl⟩
          next => exact .inl rfl
      | succ index =>
          rw [List.getElem?_cons_succ] at hp ht
          rw [List.getElem?_map, hp] at ht
          exact .inl (Option.some.inj ht).symm

theorem declaration_boundAs_of_mem {t : Text} (h : t ∈ mapping.table.names) (p : Parameter) :
    (boundAs mapping t p).declaration = wrapperOf t ++ " " ++ p.name ∧
      (boundAs mapping t p).argument = p.name ++ ".id" := by
  rw [← TypeTable.contains_iff] at h
  simp [boundAs, BoundParameter.declaration, BoundParameter.argument, h]

theorem declaration_boundAs_of_not_mem {t : Text} (h : t ∉ mapping.table.names) (p : Parameter) :
    (boundAs mapping t p).declaration = t ++ " " ++ p.name ∧
      (boundAs mapping t p).argument = p.name := by
  rw [← TypeTable.contains_iff] at h
  simp [boundAs, BoundParameter.declaration, BoundParameter.argument, h]

/-- A parameter that is no object of a registered type is bound as it is declared. -/
theorem passes_boundAs (howner : m.kind ≠ .static → type ∈ mapping.table.names) {index : Nat}
    {p : Parameter} {t : Text} (hp : m.function.params[index]? = some p)
    (ht : (effectiveTypes type m)[index]? = some t) :
    Passes mapping.table t p (boundAs mapping t p) where
  of_mem h := declaration_boundAs_of_mem h p
  of_not_mem h := by
    rcases eq_type_of_getElem? hp ht with rfl | ⟨hkind, rfl⟩
    · exact declaration_boundAs_of_not_mem h p
    · exact absurd (howner hkind) h

theorem Passes.declaration_eq {table : TypeTable} {t : Text} {p : Parameter} {q : BoundParameter}
    (h : Passes table t p q) : q.declaration = takenAs table t p := by
  rw [takenAs]
  split
  next hcontains => exact (h.of_mem (TypeTable.contains_iff.mp hcontains)).1
  next hcontains => exact (h.of_not_mem (mt TypeTable.contains_iff.mpr hcontains)).1

theorem Passes.argument_eq {table : TypeTable} {t : Text} {p : Parameter} {q : BoundParameter}
    (h : Passes table t p q) : q.argument = passedAs table t p := by
  rw [passedAs]
  split
  next hcontains => exact (h.of_mem (TypeTable.contains_iff.mp hcontains)).2
  next hcontains => exact (h.of_not_mem (mt TypeTable.contains_iff.mpr hcontains)).2

theorem map_params_wrapped (howner : m.kind ≠ .static → type ∈ mapping.table.names)
    {part : BoundParameter → Text} {spelled : Text → Parameter → Text}
    (h : ∀ t p q, Passes mapping.table t p q → part q = spelled t p) :
    (wrapped mapping type m).params.map part =
      List.zipWith spelled (effectiveTypes type m) m.function.params := by
  rw [wrapped, List.map_zipWith]
  refine List.ext_getElem? fun index => ?_
  rw [List.getElem?_zipWith, List.getElem?_zipWith]
  cases ht : (effectiveTypes type m)[index]? with
  | none => rfl
  | some t =>
      cases hp : m.function.params[index]? with
      | none => rfl
      | some p => exact congrArg some (h t p _ (passes_boundAs howner hp ht))

theorem code_wrapped (howner : m.kind ≠ .static → type ∈ mapping.table.names) :
    (wrapped mapping type m).code = lambdaText
      (List.zipWith (takenAs mapping.table) (effectiveTypes type m) m.function.params)
      (returnedAs mapping.table m.function.result)
      (m.function.scope ++ "::" ++ m.function.name)
      (List.zipWith (passedAs mapping.table) (effectiveTypes type m) m.function.params) := by
  have hresult : (wrapped mapping type m).result =
      returnedAs mapping.table m.function.result := rfl
  rw [Lambda.code_eq_lambdaText, hresult,
    map_params_wrapped howner fun _ _ _ hq => hq.declaration_eq,
    map_params_wrapped howner fun _ _ _ hq => hq.argument_eq]
  rfl

/-- Where members with an owner have a first parameter and a registered type, every lambda is
exact. -/
theorem wrapsExactly_of_owner
    (howner : m.kind ≠ .static → type ∈ mapping.table.names ∧ m.function.params ≠ []) :
    WrapsExactly mapping type m := by
  have hregistered : m.kind ≠ .static → type ∈ mapping.table.names := fun h => (howner h).1
  constructor
  case ok_iff =>
    simp only [lambdaOf_eq_ok_iff, exists_and_left, exists_eq, and_true]
  case error_parameter_iff => exact fun _ _ => lambdaOf_eq_error_parameter_iff
  case error_result_iff => exact fun _ => lambdaOf_eq_error_result_iff
  case native_eq =>
    intro call hcall
    obtain rfl := eq_wrapped_of_lambdaOf_eq_ok hcall
    rfl
  case length_params =>
    intro call hcall
    obtain rfl := eq_wrapped_of_lambdaOf_eq_ok hcall
    simp [wrapped, length_effectiveTypes]
  case code_eq =>
    intro call hcall
    obtain rfl := eq_wrapped_of_lambdaOf_eq_ok hcall
    exact code_wrapped hregistered
  case passes =>
    intro call hcall index p t q hp ht hq
    obtain rfl := eq_wrapped_of_lambdaOf_eq_ok hcall
    obtain rfl : boundAs mapping t p = q := by
      simpa [wrapped, List.getElem?_zipWith, hp, ht] using hq
    exact passes_boundAs hregistered hp ht
  case takesObject =>
    intro hkind call hcall
    obtain rfl := eq_wrapped_of_lambdaOf_eq_ok hcall
    obtain ⟨htype, hparams⟩ := howner hkind
    obtain ⟨p, others, hparams⟩ := List.exists_cons_of_ne_nil hparams
    refine ⟨p, _, by rw [hparams]; rfl, by rw [wrapped, effectiveTypes, hparams]; rfl, ?_⟩
    intro hpointer
    rw [if_pos ⟨hkind, hpointer⟩]
    exact declaration_boundAs_of_mem htype p

end Binding

namespace MemberPolicy

open Binding

variable {policy : MemberPolicy} {functions : List NativeFunction} {b : TypeMembers}

theorem owner_of_mem_members (hb : b ∈ (policy.classify functions).types) {m : Member}
    (hm : m ∈ b.members) (hkind : m.kind ≠ .static) :
    b.typeName ∈ policy.table.names ∧ m.function.params ≠ [] := by
  obtain ⟨-, htype, hmember⟩ := of_mem_members_of_mem_types hb hm
  obtain ⟨hmem, first, hfirst, -⟩ := worksOnObject_of_member hmember hkind
  refine ⟨htype ▸ hmem, ?_⟩
  intro hnil
  rw [hnil] at hfirst
  cases hfirst

/-- The lambdas of the members of a type are exact, whichever plain types are accepted; the
getters of properties take the object alone and their setters one more value. -/
theorem wrapsExactly_of_mem_types (hb : b ∈ (policy.classify functions).types)
    (plain : PlainTypes) :
    let mapping : TypeMapping := ⟨policy.table, plain⟩
    (∀ m ∈ b.members, WrapsExactly mapping b.typeName m) ∧
      ∀ p ∈ b.groups.properties,
        (∀ call, lambdaOf mapping b.typeName p.getter = .ok call →
          call.params.length = 1 ∧ TakesObject b.typeName p.getter call) ∧
        ∀ s ∈ p.setter, ∀ call, lambdaOf mapping b.typeName s = .ok call →
          call.params.length = 2 ∧ TakesObject b.typeName s call := by
  intro mapping
  have hexact : ∀ m ∈ b.members, WrapsExactly mapping b.typeName m := fun m hm =>
    wrapsExactly_of_owner (owner_of_mem_members hb hm)
  have hkind_eq := (filed_of_mem_types hb).kind_eq
  have hmem : ∀ {kind m}, m ∈ b.ofKind kind → m ∈ b.members := fun hm =>
    TypeMembers.mem_members_iff.mpr ⟨_, hm⟩
  have howned : ∀ {m call}, m ∈ b.members → m.kind ≠ .static →
      lambdaOf mapping b.typeName m = .ok call →
      call.params.length = m.function.params.length ∧ TakesObject b.typeName m call :=
    fun hm hkind hcall =>
      ⟨(hexact _ hm).length_params _ hcall, (hexact _ hm).takesObject hkind _ hcall⟩
  refine ⟨hexact, fun p hp => ?_⟩
  obtain ⟨g, hg, rfl⟩ := List.mem_map.mp hp
  refine ⟨fun call hcall => ?_, fun s hs call hcall => ?_⟩
  · have hkind : g.kind = .getter := hkind_eq .getter g hg
    have hg : g ∈ b.ofKind .getter := hg
    obtain ⟨-, -, hmember⟩ := of_mem_members_of_mem_types hb (hmem hg)
    rw [← length_params_of_kind_eq_getter hmember hkind]
    exact howned (hmem hg) (by simp [hkind]) hcall
  · have hs : s ∈ b.ofKind .setter := Keyed.mem_of_find?_eq_some hs
    have hkind : s.kind = .setter := hkind_eq .setter s hs
    obtain ⟨-, -, hmember⟩ := of_mem_members_of_mem_types hb (hmem hs)
    rw [← length_params_of_kind_eq_setter hmember hkind]
    exact howned (hmem hs) (by simp [hkind]) hcall

/-- The setter of a property takes its object by name, and a value of a registered type. -/
theorem wrapsExactly_of_mem_types_vehicle :
    let policy : MemberPolicy := ⟨⟨stockTypes⟩, {}, {}⟩
    let getter : NativeFunction :=
      ⟨"PED", "Vehicle", "GET_PED_VEHICLE", [⟨"Ped", "ped"⟩], ⟨0, 9⟩⟩
    let setter : NativeFunction :=
      ⟨"PED", "void", "SET_PED_VEHICLE", [⟨"int", "ped"⟩, ⟨"Vehicle", "vehicle"⟩], ⟨9, 18⟩⟩
    let delete : NativeFunction := ⟨"PED", "void", "DELETE_PED", [⟨"Ped*", "ped"⟩], ⟨18, 27⟩⟩
    let b : TypeMembers :=
      { typeName := "Ped"
        getters := [⟨.getter, "vehicle", getter⟩]
        setters := [⟨.setter, "vehicle", setter⟩]
        methods := [⟨.method, "delete_ped", delete⟩] }
    b ∈ (policy.classify [setter, delete, getter]).types ∧
      let mapping : TypeMapping := ⟨policy.table, {}⟩
      (∀ m ∈ b.members, WrapsExactly mapping b.typeName m) ∧
        ∀ p ∈ b.groups.properties,
          (∀ call, lambdaOf mapping b.typeName p.getter = .ok call →
            call.params.length = 1 ∧ TakesObject b.typeName p.getter call) ∧
          ∀ s ∈ p.setter, ∀ call, lambdaOf mapping b.typeName s = .ok call →
            call.params.length = 2 ∧ TakesObject b.typeName s call := by
  intro policy getter setter delete b
  have hb : b ∈ (policy.classify [setter, delete, getter]).types := by decide +kernel
  exact ⟨hb, wrapsExactly_of_mem_types hb {}⟩

end MemberPolicy

end HeaderBindings
