import HeaderBindings.Keyed
import HeaderBindings.Member

/-! The members of one logical type. Each kind is a list ordered by exposed name, so the order
in which functions arrive does not show. -/

namespace HeaderBindings

/-- The members of a type, by kind. -/
structure TypeMembers where
  typeName : Text
  getters : List Member := []
  setters : List Member := []
  methods : List Member := []
  statics : List Member := []
deriving DecidableEq, Repr

/-- A getter with the setter of the same exposed name, if there is one. -/
structure Property where
  name : Text
  getter : Member
  setter : Option Member
deriving DecidableEq, Repr

/-- The members of a type in the groups in which they are bound. -/
structure GroupedMembers where
  properties : List Property
  /-- Setters without a getter of the same name. -/
  setters : List Member
  methods : List Member
  statics : List Member
deriving DecidableEq, Repr

namespace TypeMembers

/-- The members of one kind. -/
def ofKind (b : TypeMembers) : MemberKind → List Member
  | .getter => b.getters
  | .setter => b.setters
  | .method => b.methods
  | .static => b.statics

/-- The type with other members of one kind. -/
def withKind (b : TypeMembers) (members : List Member) : MemberKind → TypeMembers
  | .getter => { b with getters := members }
  | .setter => { b with setters := members }
  | .method => { b with methods := members }
  | .static => { b with statics := members }

/-- The member of a kind that has the given exposed name. -/
def find? (b : TypeMembers) (kind : MemberKind) (exposed : Text) : Option Member :=
  Keyed.find? Member.exposed exposed (b.ofKind kind)

/-- Inserts a member; one of the same kind and exposed name gives way. -/
def insert (m : Member) (b : TypeMembers) : TypeMembers :=
  b.withKind (Keyed.insert Member.exposed m (b.ofKind m.kind)) m.kind

/-- All members: getters, setters, methods, statics. -/
def members (b : TypeMembers) : List Member :=
  b.getters ++ b.setters ++ b.methods ++ b.statics

/-- How many members there are. -/
def size (b : TypeMembers) : Nat := b.members.length

/-- The members in groups. A setter with a getter of its name joins the property and is in no
other group. -/
def groups (b : TypeMembers) : GroupedMembers where
  properties := b.getters.map fun g => ⟨g.exposed, g, b.find? .setter g.exposed⟩
  setters := b.setters.filter fun s => (b.find? .getter s.exposed).isNone
  methods := b.methods
  statics := b.statics

/-- The members of every kind ascend by exposed name. -/
structure Ordered (b : TypeMembers) : Prop where
  sorted : ∀ kind, Keyed.Sorted Member.exposed (b.ofKind kind)

theorem ofKind_insert (m : Member) (b : TypeMembers) (kind : MemberKind) :
    (b.insert m).ofKind kind =
      if m.kind = kind then Keyed.insert Member.exposed m (b.ofKind kind) else b.ofKind kind := by
  cases hm : m.kind <;> cases kind <;> simp [insert, withKind, ofKind, hm]

theorem Ordered.insert {b : TypeMembers} (h : b.Ordered) (m : Member) : (b.insert m).Ordered where
  sorted kind := by
    rw [ofKind_insert]
    split
    · exact Keyed.sorted_insert m (h.sorted kind)
    · exact h.sorted kind

/-- After an insertion the new member is found under its kind and name, and nothing else
changes. -/
theorem find?_insert {b : TypeMembers} (h : b.Ordered) (m : Member) (kind : MemberKind)
    (exposed : Text) :
    (b.insert m).find? kind exposed =
      if m.kind = kind ∧ m.exposed = exposed then some m else b.find? kind exposed := by
  unfold find?
  rw [ofKind_insert]
  by_cases hk : m.kind = kind
  · simp [hk, Keyed.find?_insert m (h.sorted kind)]
  · simp [hk]

end TypeMembers

end HeaderBindings
