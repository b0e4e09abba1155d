import HeaderBindings.Text.Basic

/-! Source files with a line table, so that a byte offset can be reported as a line and a
column. -/

namespace HeaderBindings

/-- A named text: a header or a hand-written source. -/
structure SourceFile where
  path : Text
  content : Text
deriving DecidableEq, Repr

namespace SourceFile

/-- The offsets that follow the newlines of a text that starts at `offset`. -/
def startsAfterNewlines (offset : Nat) : Text → List Nat
  | [] => []
  | c :: rest =>
    let next := offset + c.utf8Size
    if c = '\n' then next :: startsAfterNewlines next rest else startsAfterNewlines next rest

/-- The offsets at which lines start: zero and the offset after every newline. -/
def lineStarts (file : SourceFile) : List UInt32 :=
  0 :: (startsAfterNewlines 0 file.content).map Nat.toUInt32

/-- The zero-based line and column of a byte offset. The line is the last one that starts at the
offset or before it; the column counts bytes and may pass the end of the line. -/
def lineColumn (file : SourceFile) (offset : UInt32) : UInt32 × UInt32 :=
  let reached := file.lineStarts.takeWhile (· ≤ offset)
  ((reached.length - 1).toUInt32, offset - reached.getLast?.getD 0)

/-- The path, line and column of a byte offset, both counted from one. -/
def location (file : SourceFile) (offset : UInt32) : Text :=
  let (line, column) := file.lineColumn offset
  file.path ++ ":" ++ Nat.toDigits 10 (line + 1).toNat ++ ":" ++
    Nat.toDigits 10 (column + 1).toNat

end SourceFile

end HeaderBindings
