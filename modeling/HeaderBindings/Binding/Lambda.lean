import HeaderBindings.Member
import HeaderBindings.TypeMapping

/-! The lambda that binds one native: it takes wrappers where the native takes handles and
passes everything on. -/

namespace HeaderBindings.Binding

/-- A lambda that calls a native, named by its qualified name. -/
structure Lambda where
  params : List BoundParameter
  result : Text
  native : Text
deriving DecidableEq, Repr

/-- The code of a lambda. -/
def Lambda.code (l : Lambda) : Text :=
  "[](" ++ [','].intercalate (l.params.map (·.declaration)) ++ ") -> " ++ l.result ++
    " \x7b return " ++ l.native ++ "(" ++ [','].intercalate (l.params.map (·.argument)) ++
    "); \x7d"

/-- The type under which a parameter of a member of `type` is mapped: the first one of a bound
member is the object itself, unless the native wants a pointer there. -/
def effectiveType (type : Text) (m : Member) (index : Nat) (p : Parameter) : Text :=
  if index == 0 && m.takesOwner && !p.isPointer then type else p.type

/-- Maps the parameters of a member from a position on. -/
def boundParameters (mapping : TypeMapping) (type : Text) (m : Member) :
    Nat → List Parameter → Except MissingMapping (List BoundParameter)
  | _, [] => .ok []
  | index, p :: rest => do
    let first ← mapping.param index (effectiveType type m index p) p.name
    let others ← boundParameters mapping type m (index + 1) rest
    return first :: others

/-- The lambda of a member of `type`. The first parameter without a mapping is reported, and
after all parameters the result. -/
def lambdaOf (mapping : TypeMapping) (type : Text) (m : Member) : Except MissingMapping Lambda := do
  let params ← boundParameters mapping type m 0 m.function.params
  let result ← mapping.result m.function.result
  return ⟨params, result, m.function.qualifiedName⟩

end HeaderBindings.Binding
