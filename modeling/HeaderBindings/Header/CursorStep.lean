import HeaderBindings.Header.Cursor

/-! The operations of a cursor as data, so that runs of operations can be spoken of. -/

namespace HeaderBindings.Header

/-- An operation of a cursor. -/
inductive CursorStep where
  | pos
  | moveTo (offset : Nat)
  | peek
  | skipBlanks
  | accept (c : Char)
  | name
  | passKeyword (keyword : Text)
  | passWord (keyword : Text)
  | seekWord (keyword : Text)
  | upToAny (targets : List Char)
  | block (opening closing : Char)
deriving DecidableEq, Repr

/-- The answer of an operation. -/
inductive CursorReply where
  | done
  | flag (b : Bool)
  | char (c? : Option Char)
  | name (found? : Option (Text × Span))
  | offset (found? : Option Nat)
  | target (found? : Option (Char × Nat))
  | block (found : Except BlockFault (Nat × Nat))

/-- Performs an operation. -/
def CursorStep.perform (s : Cursor) : CursorStep → Except BadCut (CursorReply × Cursor)
  | pos => return (.done, s)
  | moveTo offset => return (.done, s.moveTo offset)
  | peek => return (.char (← s.peek), s)
  | skipBlanks => return (.done, ← s.skipBlanks)
  | accept c => return (← s.accept c).map .flag id
  | name => return (← s.name).map .name id
  | passKeyword keyword => return (← s.passKeyword keyword).map .offset id
  | passWord keyword => return (← s.passWord keyword).map .offset id
  | seekWord keyword => return (← s.seekWord keyword).map .flag id
  | upToAny targets => return (← s.upToAny targets).map .target id
  | block opening closing => return (← s.block opening closing).map .block id

/-- Performs operations one after the other, up to the first bad cut. Gives the answers with the
cursor after each, and the cursor that is left unless there was a bad cut. -/
def Cursor.performAll (s : Cursor) : List CursorStep → List (CursorReply × Nat) × Option Cursor
  | [] => ([], some s)
  | step :: rest =>
    match step.perform s with
    | .error _ => ([], none)
    | .ok (reply, next) =>
      let (replies, last) := next.performAll rest
      ((reply, next.pos) :: replies, last)

end HeaderBindings.Header
