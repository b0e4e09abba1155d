import HeaderBindings.Proofs.Classification.Verdict
import HeaderBindings.Convention
import HeaderBindings.Proofs.TypeTable

/-! # The convention in words

The rules of the convention overlap, and the first that applies decides. Read as conditions that
exclude each other, they ask for an object of the type, for a number of parameters and for a start
of the bare name. Nothing else about a function matters. -/

namespace HeaderBindings

open List Text

theorem Text.eq_append_dropStart_or (start t : Text) :
    t = start ++ dropStart start t ∨ ¬ start <+: t ∧ dropStart start t = t := by
  by_cases h : start <+: t
  · obtain ⟨rest, rfl⟩ := h
    exact .inl (by rw [dropStart_append])
  · exact .inr ⟨h, dropStart_of_not_isPrefix h⟩

namespace Convention

variable {traits : Traits} {kind : MemberKind}

/-! ## Conditions -/

/-- A function that reads something of its object. -/
structure Traits.IsGetter (traits : Traits) : Prop where
  worksOnObject : traits.worksOnObject = true
  arity_eq : traits.arity = 1
  starts : ∃ start ∈ (["get_", "is_", "are_", "can_"] : List Text), start <+: traits.bareName

/-- A function that changes something of its object. -/
structure Traits.IsSetter (traits : Traits) : Prop where
  worksOnObject : traits.worksOnObject = true
  arity_eq : traits.arity = 2
  starts : "set_".toList <+: traits.bareName

/-- What each kind asks of a function, whatever the order of the rules. -/
def Suits (traits : Traits) : MemberKind → Prop
  | .getter => traits.IsGetter
  | .setter => traits.IsSetter
  | .method => traits.worksOnObject = true ∧ ¬ traits.IsGetter ∧ ¬ traits.IsSetter
  | .static => traits.worksOnObject = false

/-- The start that is left out of the names of a kind. -/
def startOf : MemberKind → Text
  | .getter => "get_"
  | .setter => "set_"
  | .method | .static => []

theorem exists_suits (traits : Traits) : ∃ kind, Suits traits kind := by
  by_cases hobject : traits.worksOnObject = true
  · by_cases hgetter : traits.IsGetter
    · exact ⟨.getter, hgetter⟩
    by_cases hsetter : traits.IsSetter
    · exact ⟨.setter, hsetter⟩
    · exact ⟨.method, hobject, hgetter, hsetter⟩
  · exact ⟨.static, Bool.eq_false_iff.mpr hobject⟩

/-! ## Rules -/

theorem NamingRule.applies_iff {rule : NamingRule} :
    rule.applies traits = true ↔
      (rule.requiresObject = true → traits.worksOnObject = true) ∧
      (∀ arity ∈ rule.arity?, arity = traits.arity) ∧
      (rule.starts = [] ∨ ∃ start ∈ rule.starts, start <+: traits.bareName) := by
  rw [applies, Bool.and_eq_true, Bool.and_eq_true, and_assoc]
  refine and_congr ?_ (and_congr ?_ ?_)
  · cases rule.requiresObject <;> simp
  · simp [Option.all_eq_true]
  · simp [startsWith_iff]

/-- The rule of each kind. -/
def ruleOf : MemberKind → NamingRule
  | .getter => ⟨.getter, true, some 1, ["get_", "is_", "are_", "can_"], some "get_"⟩
  | .setter => ⟨.setter, true, some 2, ["set_"], some "set_"⟩
  | .method => ⟨.method, true, none, [], none⟩
  | .static => NamingRule.static

theorem applies_ruleOf_getter : (ruleOf .getter).applies traits = true ↔ traits.IsGetter := by
  rw [NamingRule.applies_iff]
  constructor
  · rintro ⟨hobject, harity, hstarts⟩
    exact ⟨hobject rfl, (harity 1 rfl).symm, hstarts.resolve_left (by simp [ruleOf])⟩
  · rintro ⟨hobject, harity, hstarts⟩
    exact ⟨fun _ => hobject, fun _ h => (Option.some.inj h).symm.trans harity.symm, .inr hstarts⟩

theorem applies_ruleOf_setter : (ruleOf .setter).applies traits = true ↔ traits.IsSetter := by
  rw [NamingRule.applies_iff]
  constructor
  · rintro ⟨hobject, harity, hstarts⟩
    refine ⟨hobject rfl, (harity 2 rfl).symm, ?_⟩
    simpa [ruleOf] using hstarts
  · rintro ⟨hobject, harity, hstarts⟩
    exact ⟨fun _ => hobject, fun _ h => (Option.some.inj h).symm.trans harity.symm,
      .inr ⟨_, List.mem_singleton_self _, hstarts⟩⟩

theorem applies_ruleOf_method :
    (ruleOf .method).applies traits = true ↔ traits.worksOnObject = true := by
  simp [NamingRule.applies_iff, ruleOf]

theorem ruleFor_eq_of_split (front : List NamingRule) {back : List NamingRule} {rule : NamingRule}
    (hsplit : namingRules = front ++ rule :: back) (happlies : rule.applies traits = true)
    (hfront : ∀ earlier ∈ front, ¬ earlier.applies traits = true) : ruleFor traits = rule := by
  have hfind : namingRules.find? (·.applies traits) = some rule := by
    rw [List.find?_eq_some_iff_append]
    exact ⟨happlies, front, back, hsplit, by simpa using hfront⟩
  rw [ruleFor, hfind, Option.getD_some]

/-- The rule of a kind decides about the functions that the kind suits. -/
theorem ruleFor_of_suits (h : Suits traits kind) : ruleFor traits = ruleOf kind := by
  cases kind with
  | getter =>
      exact ruleFor_eq_of_split [] rfl (applies_ruleOf_getter.mpr h) (List.forall_mem_nil _)
  | setter =>
      have hgetter : ¬ traits.IsGetter := by
        intro hgetter
        have harity := hgetter.arity_eq.symm.trans h.arity_eq
        exact absurd harity (by decide)
      exact ruleFor_eq_of_split [ruleOf .getter] rfl (applies_ruleOf_setter.mpr h)
        (List.forall_mem_singleton.mpr (applies_ruleOf_getter.not.mpr hgetter))
  | method =>
      obtain ⟨hobject, hgetter, hsetter⟩ := h
      exact ruleFor_eq_of_split [ruleOf .getter, ruleOf .setter] rfl
        (applies_ruleOf_method.mpr hobject)
        (List.forall_mem_cons.mpr ⟨applies_ruleOf_getter.not.mpr hgetter,
          List.forall_mem_singleton.mpr (applies_ruleOf_setter.not.mpr hsetter)⟩)
  | static =>
      have hobject : ¬ traits.worksOnObject = true := Bool.eq_false_iff.mp h
      have hrequires : ∀ rule ∈ [ruleOf .getter, ruleOf .setter, ruleOf .method],
          rule.requiresObject = true := by decide
      exact ruleFor_eq_of_split _ rfl rfl fun rule hrule happlies =>
        hobject ((NamingRule.applies_iff.mp happlies).1 (hrequires rule hrule))

/-- A function is of the one kind that suits it. -/
theorem fst_kindAndName_eq_iff : (kindAndName traits).1 = kind ↔ Suits traits kind := by
  have hkind : ∀ {other}, Suits traits other → (kindAndName traits).1 = other := by
    intro other h
    change (ruleFor traits).kind = other
    rw [ruleFor_of_suits h]
    cases other <;> rfl
  refine ⟨?_, hkind⟩
  rintro rfl
  obtain ⟨other, h⟩ := exists_suits traits
  rwa [hkind h]

/-- A function is exposed under its bare name without the start of its kind. -/
theorem snd_kindAndName (traits : Traits) :
    (kindAndName traits).2 = dropStart (startOf (kindAndName traits).1) traits.bareName := by
  have hrule : ruleFor traits = ruleOf (kindAndName traits).1 :=
    ruleFor_of_suits (fst_kindAndName_eq_iff.mp rfl)
  change (ruleFor traits).expose traits.bareName = _
  rw [hrule]
  cases (kindAndName traits).1 <;> rfl

end Convention

/-! ## Members -/

namespace MemberPolicy

open Convention

variable {policy : MemberPolicy} {d e : NativeFunction} {m : Member}

/-- The type of the function is registered, and the type or the name of the first parameter says
that this is an object of it. -/
structure WorksOnObject (table : TypeTable) (d : NativeFunction) : Prop where
  mem_names : d.typeName ∈ table.names
  first : ∃ first ∈ d.params.head?, first.type = d.typeName ∨ first.name = lowercase d.typeName

theorem worksOnObject_iff : policy.worksOnObject d = true ↔ WorksOnObject policy.table d := by
  rw [worksOnObject]
  cases hparams : d.params with
  | nil =>
      refine iff_of_false Bool.false_ne_true ?_
      rintro ⟨-, first, hfirst, -⟩
      rw [hparams] at hfirst
      cases hfirst
  | cons first others =>
      rw [Bool.and_eq_true, TypeTable.contains_iff, Bool.or_eq_true, decide_eq_true_iff,
        decide_eq_true_iff]
      constructor
      · rintro ⟨hobject, htype⟩
        exact ⟨htype, first, by rw [hparams]; rfl, hobject⟩
      · rintro ⟨htype, other, hother, hobject⟩
        rw [hparams] at hother
        cases hother
        exact ⟨hobject, htype⟩

theorem traits_congr (hscope : e.scope = d.scope) (hname : e.name = d.name)
    (hlength : e.params.length = d.params.length) (hfirst : e.params.head? = d.params.head?) :
    policy.traits e = policy.traits d := by
  have htype : e.typeName = d.typeName := congrArg Identifier.typeOfNamespace hscope
  have hobject : policy.worksOnObject e = policy.worksOnObject d := by
    refine Bool.eq_iff_iff.mpr ?_
    rw [worksOnObject_iff, worksOnObject_iff]
    constructor
    · rintro ⟨hmem, hparam⟩
      exact ⟨htype ▸ hmem, by rwa [hfirst, htype] at hparam⟩
    · rintro ⟨hmem, hparam⟩
      exact ⟨htype ▸ hmem, by rwa [hfirst, htype]⟩
  rw [traits, traits, hobject, hlength, hname, htype]

/-- The kind and the exposed name of a member, by the first parameter, the number of parameters
and the bare name of its function. -/
structure FollowsConvention (policy : MemberPolicy) (d : NativeFunction) (m : Member) : Prop where
  getter_iff : m.kind = .getter ↔ WorksOnObject policy.table d ∧ d.params.length = 1 ∧
    ∃ start ∈ (["get_", "is_", "are_", "can_"] : List Text), start <+: bareName d.name d.typeName
  setter_iff : m.kind = .setter ↔ WorksOnObject policy.table d ∧ d.params.length = 2 ∧
    "set_".toList <+: bareName d.name d.typeName
  method_iff : m.kind = .method ↔
    WorksOnObject policy.table d ∧ m.kind ≠ .getter ∧ m.kind ≠ .setter
  static_iff : m.kind = .static ↔ ¬ WorksOnObject policy.table d
  exposed_getter : m.kind = .getter → bareName d.name d.typeName = "get_" ++ m.exposed ∨
    ¬ "get_".toList <+: bareName d.name d.typeName ∧ m.exposed = bareName d.name d.typeName
  exposed_setter : m.kind = .setter → bareName d.name d.typeName = "set_" ++ m.exposed
  exposed_eq : m.kind = .method ∨ m.kind = .static → m.exposed = bareName d.name d.typeName
  /-- The result and the parameters behind the first do not matter. -/
  member_eq : ∀ e : NativeFunction, e.scope = d.scope → e.name = d.name →
    e.params.length = d.params.length → e.params.head? = d.params.head? →
    policy.member e = .ok ⟨m.kind, m.exposed, e⟩

theorem kind_eq_iff_of_member (h : policy.member d = .ok m) (kind : MemberKind) :
    m.kind = kind ↔ Suits (policy.traits d) kind := by
  obtain ⟨-, rfl⟩ := member_eq_ok_iff.mp h
  exact fst_kindAndName_eq_iff

theorem exposed_eq_dropStart_of_member (h : policy.member d = .ok m) :
    m.exposed = dropStart (startOf m.kind) (bareName d.name d.typeName) := by
  obtain ⟨-, rfl⟩ := member_eq_ok_iff.mp h
  exact snd_kindAndName (policy.traits d)

theorem worksOnObject_of_member (h : policy.member d = .ok m) (hkind : m.kind ≠ .static) :
    WorksOnObject policy.table d := by
  have hnot : (policy.traits d).worksOnObject ≠ false :=
    (kind_eq_iff_of_member h .static).not.mp hkind
  exact worksOnObject_iff.mp (Bool.ne_false_iff.mp hnot)

/-- The rule table puts the convention into effect. -/
theorem followsConvention_of_member (h : policy.member d = .ok m) :
    FollowsConvention policy d m := by
  have hsuits := kind_eq_iff_of_member h
  have hexposed := exposed_eq_dropStart_of_member h
  have hobject : (policy.traits d).worksOnObject = true ↔ WorksOnObject policy.table d :=
    worksOnObject_iff
  constructor
  case getter_iff =>
    rw [hsuits, ← hobject]
    exact ⟨fun h => ⟨h.1, h.2, h.3⟩, fun h => ⟨h.1, h.2.1, h.2.2⟩⟩
  case setter_iff =>
    rw [hsuits, ← hobject]
    exact ⟨fun h => ⟨h.1, h.2, h.3⟩, fun h => ⟨h.1, h.2.1, h.2.2⟩⟩
  case method_iff =>
    rw [ne_eq, ne_eq, hsuits, hsuits, hsuits, ← hobject]
    rfl
  case static_iff =>
    rw [hsuits, ← hobject, Bool.not_eq_true]
    rfl
  case exposed_getter =>
    intro hkind
    rw [hexposed, hkind]
    exact eq_append_dropStart_or "get_" _
  case exposed_setter =>
    intro hkind
    have hstarts := ((hsuits .setter).mp hkind).starts
    rw [hexposed, hkind]
    exact (eq_append_dropStart_or "set_" _).resolve_right fun hnot => hnot.1 hstarts
  case exposed_eq =>
    rintro (hkind | hkind) <;>
    · rw [hexposed, hkind]
      rfl
  case member_eq =>
    intro e hscope hname hlength hfirst
    obtain ⟨hkept, rfl⟩ := member_eq_ok_iff.mp h
    have hqualified : e.qualifiedName = d.qualifiedName := by
      rw [NativeFunction.qualifiedName, NativeFunction.qualifiedName, hscope, hname]
    have htraits : policy.traits e = policy.traits d := traits_congr hscope hname hlength hfirst
    refine member_eq_ok_iff.mpr ⟨?_, by rw [htraits]⟩
    rw [NameFilter.omission?_congr hqualified hname]
    exact hkept

/-- The first parameter is told by its name, and the type stands in the name twice. -/
theorem followsConvention_of_setPedSpeed :
    let policy : MemberPolicy := ⟨⟨stockTypes⟩, {}, {}⟩
    let d : NativeFunction :=
      ⟨"PED", "void", "_SET_PED_PED_SPEED", [⟨"int", "ped"⟩, ⟨"float", "speed"⟩], ⟨0, 9⟩⟩
    let m : Member := ⟨.setter, "speed", d⟩
    policy.member d = .ok m ∧ FollowsConvention policy d m := by
  intro policy d m
  have hmember : policy.member d = .ok m := by decide +kernel
  exact ⟨hmember, followsConvention_of_member hmember⟩

end MemberPolicy

end HeaderBindings
