import HeaderBindings.Text.Basic

/-! TOML values and how headers and dotted keys build tables. What a table may still receive
depends on how it came about, so each table keeps its origin. -/

namespace HeaderBindings.Toml

/-- How a table came about. -/
inductive Origin where
  /-- By a header of its own. -/
  | header
  /-- As a step of a longer header; a header of its own may still follow. -/
  | implied
  /-- As a step of a dotted key; only dotted keys may add to it. -/
  | dotted
  /-- In braces; nothing may add to it. -/
  | inline
deriving DecidableEq, Repr

/-- A TOML value. Numbers that are not integers and dates keep their spelling. -/
inductive Node where
  | string (value : Text)
  | integer (value : Int)
  | float (spelling : Text)
  | boolean (value : Bool)
  | dateTime (spelling : Text)
  | array (elements : List Node)
  | table (origin : Origin) (entries : List (Text × Node))
  /-- An array of tables, each by a header in double brackets. -/
  | tables (elements : List (List (Text × Node)))

/-- The entries of a table in the order in which their keys first occur. -/
abbrev Entries := List (Text × Node)

namespace Entries

/-- The value of a key. -/
def get? (key : Text) (entries : Entries) : Option Node := entries.lookup key

/-- Changes the value of a key, which may be missing, unless the change fails. -/
def change? (key : Text) (change : Option Node → Option Node) : Entries → Option Entries
  | [] => (change none).map fun node => [(key, node)]
  | (k, node) :: rest =>
    if k = key then (change (some node)).map fun node => (k, node) :: rest
    else (change? key change rest).map ((k, node) :: ·)

/-- Changes the entries of the table that is reached along a path, and creates the tables that
are missing on the way. A dotted key does not pass tables that have a header, a header passes
every table that is not inline, and both pass on to the last table of an array of tables. -/
def within? (isDotted : Bool) (change : Origin → Entries → Option Entries) :
    List Text → Origin → Entries → Option Entries
  | [], origin, entries => change origin entries
  | key :: path, _, entries =>
    entries.change? key fun
      | none =>
        let origin := if isDotted then Origin.dotted else Origin.implied
        (within? isDotted change path origin []).map (.table origin)
      | some (.table .inline _) => none
      | some (.table origin inner) =>
        if isDotted ∧ origin = .header then none
        else (within? isDotted change path origin inner).map (.table origin)
      | some (.tables elements) => do
        let last ← within? isDotted change path .header (← elements.getLast?)
        return .tables (elements.dropLast ++ [last])
      | some _ => none

/-- Adds the value of a dotted key to a table. The key must be new, and the table that receives
it must come from a dotted key itself, unless it is the one at which the key starts. -/
def add? (path : List Text) (value : Node) (origin : Origin) (entries : Entries) :
    Option Entries := do
  let key ← path.getLast?
  let parents := path.dropLast
  within? true
    (fun reached inner =>
      if (reached = .dotted) = parents.isEmpty then none
      else inner.change? key fun
        | none => some value
        | some _ => none)
    parents origin entries

/-- Opens the table of a header. It may exist only as a step of an earlier header. -/
def openTable? (path : List Text) (root : Entries) : Option Entries := do
  let key ← path.getLast?
  within? false
    (fun _ inner => inner.change? key fun
      | none => some (.table .header [])
      | some (.table .implied entries) => some (.table .header entries)
      | some _ => none)
    path.dropLast .header root

/-- Opens a further table of an array of tables. -/
def openElement? (path : List Text) (root : Entries) : Option Entries := do
  let key ← path.getLast?
  within? false
    (fun _ inner => inner.change? key fun
      | none => some (.tables [[]])
      | some (.tables elements) => some (.tables (elements ++ [[]]))
      | some _ => none)
    path.dropLast .header root

end Entries

end HeaderBindings.Toml
