import HeaderBindings.Toml.Scalars
import HeaderBindings.Toml.Strings

/-! Reading TOML documents. Arrays and inline tables nest less than eighty deep, and a key has
less than eighty parts. -/

namespace HeaderBindings.Toml

open Text

/-- How deep values may nest and how many parts a key may have, plus one. -/
def nestingLimit : Nat := 80

/-- The characters of keys without quotes. -/
def isBareKeyChar (c : Char) : Bool := c.isAlphanum || c == '_' || c == '-'

/-- One part of a key. -/
def keyPart? (t : Text) : Option (Text × Text) :=
  match t with
  | '"' :: rest => basicString? rest
  | '\'' :: rest => literalString? rest
  | _ =>
    let part := t.takeWhile isBareKeyChar
    if part.isEmpty then none else some (part, t.drop part.length)

/-- The parts of a key between dots, with blanks around each. At most `bound` parts are read. -/
def keyParts? : (bound : Nat) → Text → Option (List Text × Text)
  | 0, _ => none
  | bound + 1, t => do
    let (part, rest) ← keyPart? (skipBlanks t)
    match skipBlanks rest with
    | '.' :: rest =>
      let (parts, rest) ← keyParts? bound rest
      return (part :: parts, rest)
    | rest => return ([part], rest)

/-- A key, as the list of its parts. -/
def key? (t : Text) : Option (List Text × Text) := keyParts? (nestingLimit - 1) t

/-- A reader of values. -/
abbrev ValueReader := Text → Option (Node × Text)

/-- The elements of an array, after its opening bracket. At most `bound` elements are read. -/
def elements? (value? : ValueReader) : (bound : Nat) → Text → Option (List Node × Text)
  | 0, _ => none
  | bound + 1, t => do
    match (← afterLayout? false t) with
    | ']' :: rest => return ([], rest)
    | t =>
      let (first, rest) ← value? t
      match (← afterLayout? false rest) with
      | ',' :: rest =>
        let (others, rest) ← elements? value? bound rest
        return (first :: others, rest)
      | ']' :: rest => return ([first], rest)
      | _ => none

/-- A key with its value; what follows the value is not looked at. -/
def pair? (value? : ValueReader) (t : Text) : Option ((List Text × Node) × Text) := do
  let (path, rest) ← key? t
  let (value, rest) ← value? (skipBlanks (← afterChar? '=' rest))
  return ((path, value), rest)

/-- The pairs of an inline table, after its opening brace or a comma, added to the entries
before them. At most `bound` pairs are read. -/
def pairs? (value? : ValueReader) : (bound : Nat) → Entries → Text → Option (Entries × Text)
  | 0, _, _ => none
  | bound + 1, entries, t => do
    let ((path, value), rest) ← pair? value? t
    let entries ← entries.add? path value .inline
    match skipBlanks rest with
    | ',' :: rest => pairs? value? bound entries rest
    | '}' :: rest => return (entries, rest)
    | _ => none

/-- A value that holds no others, or one that holds values read by `nested?`. -/
def valueOver? (nested? : ValueReader) (t : Text) : Option (Node × Text) :=
  match t with
  | '"' :: _ | '\'' :: _ => (string? t).map fun (value, rest) => (.string value, rest)
  | '[' :: rest =>
    (elements? nested? t.length rest).map fun (elements, rest) => (.array elements, rest)
  | '{' :: rest =>
    match skipBlanks rest with
    | '}' :: rest => some (.table .inline [], rest)
    | rest =>
      (pairs? nested? t.length [] rest).map fun (entries, rest) => (.table .inline entries, rest)
  | 't' :: _ => (afterStart? "true" t).map fun rest => (.boolean true, rest)
  | 'f' :: _ => (afterStart? "false" t).map fun rest => (.boolean false, rest)
  | 'i' :: _ | 'n' :: _ => specialFloat? t
  | c :: _ => if c = '+' ∨ c = '-' ∨ c.isDigit then numeric? t else none
  | [] => none

/-- A value in which others nest at most so deep. -/
def value? : (depth : Nat) → ValueReader
  | 0 => fun t =>
    if t.head? = some '[' ∨ t.head? = some '\x7b' then none else valueOver? (fun _ => none) t
  | depth + 1 => valueOver? (value? depth)

/-- A document while it is read: its root table, and the path of the table that receives keys. -/
structure Partial where
  root : Entries := []
  header : List Text := []

namespace Partial

/-- Adds a key to the table of the last header. -/
def add? (p : Partial) (path : List Text) (value : Node) : Option Partial := do
  let root ← p.root.within? false (fun origin entries => entries.add? path value origin)
    p.header .header
  return { p with root }

/-- Starts the table of a header. -/
def openTable? (p : Partial) (path : List Text) : Option Partial := do
  return { root := (← p.root.openTable? path), header := path }

/-- Starts a further table of an array of tables. -/
def openElement? (p : Partial) (path : List Text) : Option Partial := do
  return { root := (← p.root.openElement? path), header := path }

end Partial

/-- Reads one line that is not blank, and the rest of the text. -/
def line? (p : Partial) (t : Text) : Option (Partial × Text) :=
  match t with
  | '#' :: _ | '\n' :: _ | '\r' :: _ => do return (p, ← afterLine? t)
  | '[' :: '[' :: rest => do
    let (path, rest) ← key? rest
    return (← p.openElement? path, ← afterLine? (← afterStart? "]]" rest))
  | '[' :: rest => do
    let (path, rest) ← key? rest
    return (← p.openTable? path, ← afterLine? (← afterChar? ']' rest))
  | _ => do
    let ((path, value), rest) ← pair? (value? (nestingLimit - 1)) t
    return (← p.add? path value, ← afterLine? rest)

/-- Reads at most `bound` lines. -/
def lines? : (bound : Nat) → Partial → Text → Option Entries
  | 0, _, _ => none
  | bound + 1, p, t =>
    match skipBlanks t with
    | [] => some p.root
    | t => do
      let (p, rest) ← line? p t
      lines? bound p rest

/-- The root table of a document, which may start with a byte order mark. -/
def document? (t : Text) : Option Entries :=
  let t := dropStart ['\ufeff'] t
  lines? (t.length + 1) {} t

end HeaderBindings.Toml
