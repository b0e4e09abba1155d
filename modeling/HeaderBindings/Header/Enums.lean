import HeaderBindings.EnumBlock
import HeaderBindings.Header.Comment
import HeaderBindings.Header.Findings

/-! Enumerations of a header, at any depth: inside namespaces, structures and linkage blocks. -/

namespace HeaderBindings.Header

open Text

/-- Reads one piece of an enumeration's body. A blank piece is no entry; what stands right of the
first equals sign is a value. -/
def entryOfPiece? (enumName piece : Text) : Option EnumEntry :=
  let piece := trim piece
  if piece.isEmpty then none
  else
    let name := trim (piece.takeWhile (· != '='))
    some ⟨name, piece.contains '=', EnumBlock.boundName enumName name⟩

/-- The entries of an enumeration's body, in order. -/
def enumEntries (enumName body : Text) : List EnumEntry :=
  (splitTopLevel ',' body).filterMap (entryOfPiece? enumName)

/-- Reads the name of an enumeration, past `class` or `struct`. -/
def enumName (s : Cursor) : Except BadCut (Option (Text × Span) × Cursor) := do
  let (first, afterFirst) ← (← s.skipBlanks).name
  if first.any fun (word, _) => word = "class" ∨ word = "struct" then
    (← afterFirst.skipBlanks).name
  else return (first, afterFirst)

/-- Reads the next enumeration. A declaration without a body is passed over. -/
def enumRound (s : Cursor) : Except BadCut (Round EnumBlock) := do
  let (some start, s) ← s.passWord "enum" | return .finished
  let (name?, s) ← enumName s
  let some (name, place) := name?
    | return .found (.problem (.unnamedEnum start s.pos)) s
  let (target?, s) ← s.upToAny ['{', ';']
  match target? with
  | none => return .found (.problem (.enumWithoutBody name place)) s
  | some ('{', _) =>
    let (block, next) ← s.block '{' '}'
    match block with
    | .error cause =>
      return .found (.problem (.malformedEnum name cause)) (s.moveTo (s.pos + 1))
    | .ok (opening, closing) =>
      let (_, next) ← (← next.skipBlanks).accept ';'
      let body ← slice (opening + 1) closing s.text
      return .found (.item ⟨name, enumEntries name body, .between start next.pos⟩) next
  | some _ => return .found {} s

/-- The enumerations of a comment-free text. -/
def enumsIn (t : Text) : Except BadCut (Findings EnumBlock) :=
  collect enumRound (.ofText t)

/-- The enumerations of a header. -/
def enumsOf (raw : Text) : Except BadCut (Findings EnumBlock) :=
  enumsIn (blankComments raw)

end HeaderBindings.Header
