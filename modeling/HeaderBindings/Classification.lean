import HeaderBindings.Config
import HeaderBindings.Convention
import HeaderBindings.HandWritten
import HeaderBindings.TypeMembers

/-! Native functions as members of their types. A policy says what becomes of one function; a
classification collects the members of every type and what was left out. -/

namespace HeaderBindings

open Text

/-- The members of every type that occurs as a namespace, in ascending order of type names, and
the functions that were left out with the reasons, by qualified name. -/
structure Classification where
  types : List TypeMembers := []
  skipped : List (Text × Omission) := []
deriving DecidableEq, Repr

/-- What decides about functions. -/
structure MemberPolicy where
  table : TypeTable
  handWritten : HandWritten
  names : NameFilter

/-- Why the name of a function keeps it out, if it does. A hand-written function is out in any
case; a hexadecimal name is, unless it contains an exempt text. -/
def NameFilter.omission? (filter : NameFilter) (handWritten : HandWritten)
    (d : NativeFunction) : Option Omission :=
  if handWritten.contains d.qualifiedName then some .handWritten
  else if filter.hexExempt.any fun exempt => occursIn (lowercase exempt) (lowercase d.name) then
    none
  else if startsWith filter.hexPrefix d.name then some .hexName
  else none

namespace MemberPolicy

/-- Whether the first parameter is an object of the namespace's type, told by its type or by its
name, and the type is registered. -/
def worksOnObject (policy : MemberPolicy) (d : NativeFunction) : Bool :=
  match d.params with
  | [] => false
  | first :: _ =>
    (first.type = d.typeName || first.name = lowercase d.typeName) &&
      policy.table.contains d.typeName

/-- What the naming convention looks at in a function. -/
def traits (policy : MemberPolicy) (d : NativeFunction) : Convention.Traits :=
  ⟨policy.worksOnObject d, d.params.length, Convention.bareName d.name d.typeName⟩

/-- The member that a function becomes, or why it is left out. -/
def member (policy : MemberPolicy) (d : NativeFunction) : Except Omission Member :=
  match policy.names.omission? policy.handWritten d with
  | some reason => .error reason
  | none =>
    let (kind, exposed) := Convention.kindAndName (policy.traits d)
    .ok ⟨kind, exposed, d⟩

/-- Adds one function to a classification. Its type gets a place even if the function is left
out; a member that gives way to it is reported as shadowed. -/
def add (policy : MemberPolicy) (result : Classification) (d : NativeFunction) :
    Classification :=
  let members :=
    (Keyed.find? TypeMembers.typeName d.typeName result.types).getD { typeName := d.typeName }
  let store := fun changed => Keyed.insert TypeMembers.typeName changed result.types
  match policy.member d with
  | .error reason =>
    ⟨store members, result.skipped ++ [(d.qualifiedName, reason)]⟩
  | .ok m =>
    let shadowed := (members.find? m.kind m.exposed).toList.map fun loser =>
      (loser.function.qualifiedName, Omission.shadowed d.qualifiedName)
    ⟨store (members.insert m), result.skipped ++ shadowed⟩

/-- Classifies functions in source order. -/
def classify (policy : MemberPolicy) (functions : List NativeFunction) : Classification :=
  functions.foldl policy.add {}

end MemberPolicy

end HeaderBindings
