import HeaderBindings.TypeTable

/-! Settings of a run: which files to produce, which names to skip, which types to accept
and which types to wrap. -/

namespace HeaderBindings

/-- The groups of files to produce. -/
structure OutputSelection where
  enums : Bool := true
  natives : Bool := true
  diagnostics : Bool := true
deriving DecidableEq, Repr

/-- How unnamed natives are told from named ones: their names start with `hexPrefix`, and a name
that contains one of `hexExempt`, in any case, counts as named. -/
structure NameFilter where
  hexPrefix : Text := "_0x"
  hexExempt : List Text := ["set_control"]
deriving DecidableEq, Repr

/-- The types that pass without a wrapper: those of `params` everywhere, those of `returns` as
results only. -/
structure PlainTypes where
  params : List Text := ["char*", "BOOL", "int", "float"]
  returns : List Text := ["void", "Vector3"]
deriving DecidableEq, Repr

/-- Whether a parameter may have the type as it is. -/
def PlainTypes.allowsParameter (plain : PlainTypes) (type : Text) : Bool :=
  plain.params.any (· = type)

/-- Whether a result may have the type as it is. -/
def PlainTypes.allowsResult (plain : PlainTypes) (type : Text) : Bool :=
  plain.allowsParameter type || plain.returns.any (· = type)

/-- The types that are registered unless a configuration lists others. -/
def stockTypes : List LogicalType :=
  [ { name := "Void", storage := "DWORD" },
    { name := "Any", storage := "DWORD" },
    { name := "uint", storage := "DWORD" },
    { name := "Hash", storage := "DWORD", init := some "DWORD" },
    { name := "Entity", storage := "int", parent := some "Any" },
    { name := "Player", storage := "int", parent := some "Any" },
    { name := "Ped", storage := "int", parent := some "Entity" },
    { name := "Vehicle", storage := "int", parent := some "Entity" },
    { name := "Cam", storage := "int", parent := some "Any" },
    { name := "Object", storage := "int", parent := some "Entity" },
    { name := "Pickup", storage := "int", parent := some "Object" },
    { name := "Blip", storage := "int", parent := some "Any" },
    { name := "ScrHandle", storage := "int" } ]

/-- The settings of a run. -/
structure Config where
  output : OutputSelection := {}
  names : NameFilter := {}
  plain : PlainTypes := {}
  types : List LogicalType := stockTypes
deriving DecidableEq, Repr

/-- The table of the configured types. -/
def Config.table (config : Config) : Except TypeTableError TypeTable :=
  TypeTable.ofEntries config.types

end HeaderBindings
