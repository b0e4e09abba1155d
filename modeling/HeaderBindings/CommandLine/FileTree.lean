import HeaderBindings.CommandLine.Run

/-! A host that keeps its files in memory: a working directory with the files and directories
below it. Nothing above the working directory can be reached. -/

namespace HeaderBindings.CommandLine

open Text

/-- The files by path, with their contents unless that is no text, and the directories that were
made. Whatever stands above a file is a directory, too. -/
structure FileTree where
  files : List (List Text × Option Text) := []
  directories : List (List Text) := []
deriving DecidableEq, Repr

namespace FileTree

/-- The steps of a path. -/
def steps (path : Text) : List Text := pieces (· == '/') path

/-- Whether a file stands at a place. -/
def isFile (tree : FileTree) (place : List Text) : Bool :=
  tree.files.any fun file => file.1 = place

/-- Whether a directory stands at a place. -/
def isDirectory (tree : FileTree) (place : List Text) : Bool :=
  place.isEmpty || place ∈ tree.directories ||
    tree.files.any fun file => place.isPrefixOf file.1 && place.length < file.1.length

/-- The place one step from a directory; an empty step and a dot stay there. -/
def step? (tree : FileTree) (place : List Text) (name : Text) : Option (List Text) :=
  if !tree.isDirectory place then none
  else if name.isEmpty ∨ name = "." then some place
  else if name = ".." then if place.isEmpty then none else some place.dropLast
  else some (place ++ [name])

/-- The place of a path. Every step but the last must lead to a directory. -/
def place? (tree : FileTree) (path : Text) : Option (List Text) :=
  if path.isEmpty || path.head? == some '/' then none
  else (steps path).foldlM tree.step? []

/-- The text of a file. -/
def read? (path : Text) (tree : FileTree) : Option Text := do
  let place ← tree.place? path
  (← tree.files.lookup place)

/-- Makes the directories along steps from a place. -/
def makeDirectories? (tree : FileTree) (place : List Text) : List Text → Option FileTree
  | [] => some tree
  | name :: rest => do
    let next ← tree.step? place name
    if tree.isFile next then none
    else if tree.isDirectory next then tree.makeDirectories? next rest
    else makeDirectories? { tree with directories := next :: tree.directories } next rest

/-- Makes a directory and those above it. -/
def makeDirectory? (path : Text) (tree : FileTree) : Option FileTree :=
  if path.isEmpty || path.head? == some '/' then none
  else tree.makeDirectories? [] (steps path)

/-- Writes a file, whose directory must exist. -/
def write? (path content : Text) (tree : FileTree) : Option FileTree := do
  let place ← tree.place? path
  if tree.isDirectory place then none
  else
    let others := tree.files.filter fun file => file.1 ≠ place
    return { tree with files := (place, some content) :: others }

/-- Takes a change over if there is one, and says whether there is. -/
def attempt (change : FileTree → Option FileTree) : StateM FileTree Bool := do
  match change (← get) with
  | some tree => set tree; return true
  | none => return false

/-- The host that works on a file tree. -/
def host : Host (StateM FileTree) where
  read? path := return read? path (← get)
  makeDirectory path := attempt (makeDirectory? path)
  write path content := attempt (write? path content)

/-- The files that are new in a later tree or have another content there, with that content. -/
def changed (before after : FileTree) : List (Text × Text) :=
  after.files.filterMap fun (place, content) =>
    if before.files.lookup place = some content then none
    else content.map (['/'].intercalate place, ·)

end FileTree

end HeaderBindings.CommandLine
