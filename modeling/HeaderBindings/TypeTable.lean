import HeaderBindings.Keyed

/-! The table of logical types. A type may inherit its storage from a parent; in an accepted
table names are unique, parents exist and no chain of parents loops. -/

namespace HeaderBindings

/-- A logical type: its storage, its parent and the type its constructor takes. -/
structure LogicalType where
  name : Text
  storage : Text
  parent : Option Text := none
  init : Option Text := none
deriving DecidableEq, Repr

/-- Why a table of types is refused. -/
inductive TypeTableError where
  | duplicateType (name : Text)
  | unknownParent (type parent : Text)
  | parentCycle (chain : List Text)
deriving DecidableEq, Repr

namespace TypeTableError

/-- The wording of the error. -/
def message : TypeTableError → Text
  | duplicateType name => "Type `" ++ name ++ "` is registered more than once"
  | unknownParent type parent =>
    "Type `" ++ type ++ "` inherits from unknown type `" ++ parent ++ "`"
  | parentCycle chain => "Inheritance cycle: " ++ (" -> " : Text).intercalate chain

/-- What to do about the error, where that is clear. -/
def help? : TypeTableError → Option Text
  | duplicateType _ => some "type names in the registry must be unique"
  | unknownParent type parent =>
    some ("register `" ++ parent ++ "` or drop the parent of `" ++ type ++ "`")
  | parentCycle _ => none

end TypeTableError

namespace LogicalType

/-- The entry with the given name. -/
def find? (name : Text) (entries : List LogicalType) : Option LogicalType :=
  entries.find? fun e => e.name = name

/-- The first name that an earlier entry has as well; `seen` are the names before. -/
def firstDuplicate? (seen : List Text) : List LogicalType → Option Text
  | [] => none
  | e :: rest => if e.name ∈ seen then some e.name else firstDuplicate? (e.name :: seen) rest

/-- The first entry whose parent has no entry, with that parent. -/
def firstOrphan? (entries : List LogicalType) : Option (Text × Text) :=
  entries.findSome? fun e =>
    e.parent.bind fun parent =>
      if (find? parent entries).isSome then none else some (e.name, parent)

/-- The entries met from `name` on along the parents. Each entry of the pool is used once; a
parent that is not in the pool any more ends the walk and is given back. -/
def lineage (name : Text) (pool : List LogicalType) : List LogicalType × Option Text :=
  match _hfound : find? name pool with
  | none => ([], some name)
  | some e =>
    match e.parent with
    | none => ([e], none)
    | some parent =>
      let (others, missing) := lineage parent (pool.erase e)
      (e :: others, missing)
termination_by pool.length
decreasing_by
  have hmem : e ∈ pool := List.mem_of_find?_eq_some _hfound
  have := List.length_pos_of_mem hmem
  rw [List.length_erase_of_mem hmem]
  omega

/-- The names on the way from the first entry whose parents run into a cycle up to the first
repetition. -/
def firstCycle? (entries : List LogicalType) : Option (List Text) :=
  entries.findSome? fun e =>
    match lineage e.name entries with
    | (chain, some repeated) => some (chain.map (·.name) ++ [repeated])
    | (_, none) => none

/-- Appends an entry unless one of its name is there. -/
def addNew (ordered : List LogicalType) (e : LogicalType) : List LogicalType :=
  if (find? e.name ordered).isSome then ordered else ordered ++ [e]

/-- The entries in an order in which each follows all its ancestors; apart from that they stay
in place. -/
def ancestorsFirst (entries : List LogicalType) : List LogicalType :=
  entries.foldl (fun ordered e => (lineage e.name entries).1.reverse.foldl addNew ordered) []

end LogicalType

/-- The accepted types, parents before children. -/
structure TypeTable where
  entries : List LogicalType
deriving DecidableEq, Repr

namespace TypeTable

/-- Accepts a table of types. Repeated names are reported before unknown parents, and those
before cycles. -/
def ofEntries (entries : List LogicalType) : Except TypeTableError TypeTable :=
  match LogicalType.firstDuplicate? [] entries with
  | some name => .error (.duplicateType name)
  | none =>
    match LogicalType.firstOrphan? entries with
    | some (type, parent) => .error (.unknownParent type parent)
    | none =>
      match LogicalType.firstCycle? entries with
      | some chain => .error (.parentCycle chain)
      | none => .ok ⟨LogicalType.ancestorsFirst entries⟩

/-- The entry of a type. -/
def get? (r : TypeTable) (name : Text) : Option LogicalType := LogicalType.find? name r.entries

/-- Whether a type is registered. -/
def contains (r : TypeTable) (name : Text) : Bool := (r.get? name).isSome

/-- The entry of a type's parent. -/
def parent? (r : TypeTable) (name : Text) : Option LogicalType :=
  ((r.get? name).bind (·.parent)).bind r.get?

/-- The registered names, parents first. -/
def names (r : TypeTable) : List Text := r.entries.map (·.name)

/-- The candidates that are not registered, in ascending order and each once. -/
def unregistered (r : TypeTable) (candidates : List Text) : List Text :=
  Keyed.ofList id (candidates.filter (!r.contains ·))

end TypeTable

end HeaderBindings
