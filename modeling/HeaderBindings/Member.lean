import HeaderBindings.NativeFunction

/-! Native functions as members of a logical type. -/

namespace HeaderBindings

/-- How a function is exposed on its type. -/
inductive MemberKind where
  | getter
  | setter
  | method
  | static
deriving DecidableEq, Repr

/-- The word for a kind. -/
def MemberKind.word : MemberKind → Text
  | getter => "getter"
  | setter => "setter"
  | method => "method"
  | static => "static"

/-- A function with the kind and the name under which it is exposed. -/
structure Member where
  kind : MemberKind
  exposed : Text
  function : NativeFunction
deriving DecidableEq, Repr

/-- Whether the owning wrapper is the first argument. -/
def Member.takesOwner (m : Member) : Bool := m.kind ≠ .static

/-- Why a function is left out of generation. -/
inductive Omission where
  /-- A hand-written implementation exists. -/
  | handWritten
  /-- The function has no name but a hexadecimal one. -/
  | hexName
  /-- A later function of the same kind and exposed name took its place. -/
  | shadowed (winner : Text)
deriving DecidableEq, Repr

/-- The wording of a reason. -/
def Omission.message : Omission → Text
  | handWritten => "hand-written override"
  | hexName => "unnamed hex native"
  | shadowed winner => "shadowed by " ++ winner

end HeaderBindings
