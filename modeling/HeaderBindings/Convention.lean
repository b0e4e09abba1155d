import HeaderBindings.Member
import HeaderBindings.Text.Lowercase

/-! The naming convention of natives: how the name and the parameters of a function tell its
kind and the name under which it is exposed. -/

namespace HeaderBindings.Convention

open Text

/-- Removes each leading `type_` and, behind every other segment, each `type_` that follows. -/
def dropSegments (type t : Text) : Text :=
  match _hstart : afterStart? (type ++ "_") t with
  | some rest => dropSegments type rest
  | none =>
    match _hrest : t.dropWhile (· != '_') with
    | [] => t
    | underscore :: rest => t.takeWhile (· != '_') ++ underscore :: dropSegments type rest
termination_by t.length
decreasing_by
  · rw [eq_append_of_afterStart? _hstart]
    simp only [List.length_append]
    have : 0 < (String.toList "_").length := by decide
    omega
  · have : (t.dropWhile (· != '_')).length ≤ t.length := (List.dropWhile_suffix _).length_le
    rw [_hrest] at this
    simp only [List.length_cons] at this
    omega

/-- The function name in lower case, without one leading underscore and without the segments
that repeat the type: `IS_PED_ARMED` of `Ped` gives `is_armed`. If only underscores would
remain, the segments stay. -/
def bareName (function type : Text) : Text :=
  let lower := dropStart "_" (lowercase function)
  let short := dropSegments (lowercase type) lower
  if short.all (· == '_') then lower else short

/-- What the convention looks at in a function. -/
structure Traits where
  /-- The function works on an object of its registered type. -/
  worksOnObject : Bool
  arity : Nat
  bareName : Text
deriving DecidableEq, Repr

/-- A row of the convention. The bare name must start with one of `starts`, unless there is
none; `dropped` is removed from it to form the exposed name. -/
structure NamingRule where
  kind : MemberKind
  requiresObject : Bool
  arity? : Option Nat
  starts : List Text
  dropped? : Option Text
deriving DecidableEq, Repr

namespace NamingRule

/-- Whether the rule applies. -/
def applies (rule : NamingRule) (traits : Traits) : Bool :=
  (!rule.requiresObject || traits.worksOnObject) &&
  rule.arity?.all (· == traits.arity) &&
  (rule.starts.isEmpty || rule.starts.any (startsWith · traits.bareName))

/-- The name under which the rule exposes a bare name. -/
def expose (rule : NamingRule) (bare : Text) : Text :=
  match rule.dropped? with
  | some start => dropStart start bare
  | none => bare

/-- The rule for functions that belong to no object; it applies to all functions. -/
def static : NamingRule := ⟨.static, false, none, [], none⟩

end NamingRule

/-- The rules of the convention; the first that applies decides. -/
def namingRules : List NamingRule :=
  [ ⟨.getter, true, some 1, ["get_", "is_", "are_", "can_"], some "get_"⟩,
    ⟨.setter, true, some 2, ["set_"], some "set_"⟩,
    ⟨.method, true, none, [], none⟩,
    NamingRule.static ]

/-- The rule that decides about a function with the given traits. -/
def ruleFor (traits : Traits) : NamingRule :=
  (namingRules.find? (·.applies traits)).getD NamingRule.static

/-- The kind and the exposed name of a function with the given traits. -/
def kindAndName (traits : Traits) : MemberKind × Text :=
  let rule := ruleFor traits
  (rule.kind, rule.expose traits.bareName)

end HeaderBindings.Convention
