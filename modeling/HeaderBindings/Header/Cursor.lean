import HeaderBindings.Header.Nesting
import HeaderBindings.Span
import HeaderBindings.Text.Blank

/-! A brace-aware cursor over comment-free header text. A cursor names its place by byte
offsets, so it can be put where a text cannot be cut; an operation that would have to cut there
fails with `BadCut`. Every operation returns the cursor that follows it. -/

namespace HeaderBindings.Header

open Text

/-- Why no block could be read at the cursor. -/
inductive BlockFault where
  | unterminated (opening : Char) (offset : Nat)
  | expected (opening : Char) (offset : Nat)
deriving DecidableEq, Repr

namespace BlockFault

/-- Where the block starts or should have started. -/
def offset : BlockFault → Nat
  | unterminated _ offset => offset
  | expected _ offset => offset

/-- The wording of the error. -/
def message : BlockFault → Text
  | unterminated opening offset =>
    "`" ++ [opening] ++ "` at offset " ++ Nat.toDigits 10 offset ++ " is never closed"
  | expected opening offset => "expected `" ++ [opening] ++ "` at offset " ++ Nat.toDigits 10 offset

end BlockFault

/-- A cursor at the byte offset `pos`, which looks no further than `stop`. -/
structure Cursor where
  text : Text
  pos : Nat
  stop : Nat
deriving DecidableEq, Repr

namespace Cursor

/-- A cursor at the start of a text. -/
def ofText (t : Text) : Cursor := ⟨t, 0, size t⟩

/-- How many bytes are left. -/
def remaining (s : Cursor) : Nat := s.stop - s.pos

/-- The text between the cursor and the end of the range. -/
def rest (s : Cursor) : Except BadCut Text := slice s.pos s.stop s.text

/-- The cursor at another offset, or at the end of the range if the offset lies behind it. -/
def moveTo (offset : Nat) (s : Cursor) : Cursor := { s with pos := min offset s.stop }

/-- The cursor a number of bytes further on. -/
def advance (bytes : Nat) (s : Cursor) : Cursor := { s with pos := s.pos + bytes }

/-- The next character. -/
def peek (s : Cursor) : Except BadCut (Option Char) := return (← s.rest).head?

/-- Passes white space. -/
def skipBlanks (s : Cursor) : Except BadCut Cursor :=
  return s.advance (size ((← s.rest).takeWhile isBlank))

/-- Passes one character if it is the next one. -/
def accept (c : Char) (s : Cursor) : Except BadCut (Bool × Cursor) := do
  if (← s.peek) = some c then return (true, s.advance c.utf8Size) else return (false, s)

/-- Reads the longest name at the cursor, if there is one. -/
def name (s : Cursor) : Except BadCut (Option (Text × Span) × Cursor) := do
  let found := (← s.rest).takeWhile isNameChar
  if found.isEmpty then return (none, s)
  let next := s.advance (size found)
  return (some (found, Span.between s.pos next.pos), next)

/-- Moves past the next whole word `keyword` outside of braces and gives the offset at which it
starts. Without one the cursor moves to the end. Only a range that reaches behind the text is a
bad cut; a cursor inside a character moves to the next one. -/
def passKeyword (keyword : Text) (s : Cursor) : Except BadCut (Option Nat × Cursor) :=
  if s.stop ≤ s.pos then return (none, { s with pos := s.stop })
  else if size s.text < s.stop then throw ⟨s.pos, s.stop⟩
  else
    let (before, after) := splitFrom s.pos s.text
    let start := size before
    match offsetOfKeyword? keyword 0 before.getLast? (within (s.stop - start) after) with
    | some offset =>
      return (some (start + offset), { s with pos := start + offset + size keyword })
    | none => return (none, { s with pos := s.stop })

/-- Moves onto the next whole word `keyword`, nested or not, and says whether there is one.
Without one the cursor moves to the end. -/
def seekWord (keyword : Text) (s : Cursor) : Except BadCut (Bool × Cursor) := do
  match upToWord? keyword (splitFrom s.pos s.text).1.getLast? (← s.rest) with
  | some passed => return (true, s.advance (size passed))
  | none => return (false, { s with pos := s.stop })

/-- Moves past the next whole word `keyword`, nested or not, and gives the offset at which it
starts. -/
def passWord (keyword : Text) (s : Cursor) : Except BadCut (Option Nat × Cursor) := do
  match (← s.seekWord keyword) with
  | (true, found) => return (some found.pos, found.advance (size keyword))
  | (false, ended) => return (none, ended)

/-- Moves onto the first of the targets outside of braces and parentheses. Without one the
cursor stays. -/
def upToAny (targets : List Char) (s : Cursor) :
    Except BadCut (Option (Char × Nat) × Cursor) := do
  match upToTarget? targets 0 (← s.rest) with
  | some (passed, found) =>
    let next := s.advance (size passed)
    return (some (found, next.pos), next)
  | none => return (none, s)

/-- Moves past the block at the cursor and gives the offsets of its opening and closing marks.
If there is no complete block the cursor stays. -/
def block (opening closing : Char) (s : Cursor) :
    Except BadCut (Except BlockFault (Nat × Nat) × Cursor) := do
  match (← s.rest) with
  | [] => return (.error (.expected opening s.pos), s)
  | c :: inner =>
    if c ≠ opening then return (.error (.expected opening s.pos), s)
    match blockInside? opening closing 0 inner with
    | some inside =>
      let close := s.pos + opening.utf8Size + size inside
      return (.ok (s.pos, close), { s with pos := close + closing.utf8Size })
    | none => return (.error (.unterminated opening s.pos), s)

end Cursor

end HeaderBindings.Header
