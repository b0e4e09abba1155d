import HeaderBindings.Binding.Lambda
import HeaderBindings.TypeMembers

/-! What is registered for the class of one type. A member that cannot be wrapped is left out
and reported; the others are bound all the same. -/

namespace HeaderBindings.Binding

/-- One registration of a class. -/
inductive Entry where
  /-- A constructor that takes one value of a type. -/
  | constructor (type : Text)
  | property (name : Text) (getter setter : Lambda)
  | readonly (name : Text) (getter : Lambda)
  /-- A setter without a getter, bound with `set_` before its name. -/
  | setter (name : Text) (call : Lambda)
  | method (name : Text) (call : Lambda)
  | static (name : Text) (call : Lambda)
deriving DecidableEq, Repr

namespace Entry

/-- The lambdas of an entry. -/
def lambdas : Entry → List Lambda
  | constructor _ => []
  | property _ get set => [get, set]
  | readonly _ call | setter _ call | method _ call | static _ call => [call]

/-- The attribute that an entry binds. -/
def attribute? : Entry → Option Text
  | constructor _ => none
  | property name _ _ | readonly name _ | method name _ | static name _ => some name
  | setter name _ => some ("set_" ++ name)

/-- The code of an entry. -/
def code : Entry → Text
  | constructor type => ".def(py::init<" ++ type ++ ">())"
  | property name get set =>
    ".def_property(\"" ++ name ++ "\", " ++ get.code ++ ", " ++ set.code ++ ")"
  | readonly name getter => ".def_property_readonly(\"" ++ name ++ "\", " ++ getter.code ++ ")"
  | setter name call => ".def(\"set_" ++ name ++ "\", " ++ call.code ++ ")"
  | method name call => ".def(\"" ++ name ++ "\", " ++ call.code ++ ")"
  | static name call => ".def_static(\"" ++ name ++ "\", " ++ call.code ++ ")"

end Entry

/-- Entries of a class, and the members that could not be wrapped in the order in which they
were met. -/
structure ClassBody where
  entries : List Entry := []
  failed : List Member := []
deriving DecidableEq, Repr

namespace ClassBody

/-- A body followed by another. -/
def append (a b : ClassBody) : ClassBody := ⟨a.entries ++ b.entries, a.failed ++ b.failed⟩

instance : Append ClassBody := ⟨append⟩

/-- The bodies one after the other. -/
def concat (bodies : List ClassBody) : ClassBody :=
  ⟨bodies.flatMap (·.entries), bodies.flatMap (·.failed)⟩

end ClassBody

section

variable (mapping : TypeMapping) (type : Text)

/-- The entry of one member, or its failure. -/
def bindMember (entry : Text → Lambda → Entry) (m : Member) : ClassBody :=
  match lambdaOf mapping type m with
  | .ok call => { entries := [entry m.exposed call] }
  | .error _ => { failed := [m] }

/-- The entry of a property. If only its setter cannot be wrapped it is read-only; if its getter
cannot, there is no property. -/
def bindProperty (p : Property) : ClassBody :=
  match lambdaOf mapping type p.getter with
  | .error _ => { failed := [p.getter] }
  | .ok getter =>
    match p.setter with
    | none => { entries := [.readonly p.name getter] }
    | some s =>
      match lambdaOf mapping type s with
      | .ok setter => { entries := [.property p.name getter setter] }
      | .error _ => { entries := [.readonly p.name getter], failed := [s] }

/-- The setter of a property whose getter cannot be wrapped. -/
def freedSetter? (p : Property) : Option Member :=
  match lambdaOf mapping type p.getter with
  | .error _ => p.setter
  | .ok _ => none

/-- Everything that is bound for a type: properties, plain setters, methods and statics, each
group by exposed name. The setter of a property whose getter fails is a plain setter. -/
def classBody (members : TypeMembers) : ClassBody :=
  let groups := members.groups
  let freed := groups.properties.filterMap (freedSetter? mapping type)
  let setters :=
    freed.foldl (fun sorted s => Keyed.insert Member.exposed s sorted) groups.setters
  ClassBody.concat (groups.properties.map (bindProperty mapping type)) ++
    ClassBody.concat (setters.map (bindMember mapping type .setter)) ++
    ClassBody.concat (groups.methods.map (bindMember mapping type .method)) ++
    ClassBody.concat (groups.statics.map (bindMember mapping type .static))

end

end HeaderBindings.Binding
