import HeaderBindings.Header.Comment
import HeaderBindings.Header.Findings
import HeaderBindings.NativeFunction

/-! Native functions of a header: each `static` function with a body inside a `namespace`
block. A malformed one is reported and reading goes on behind it. -/

namespace HeaderBindings.Header

open Text

/-- Splits the text between the keyword and the parameter list into return type and function
name. The name is the trailing run of name characters and may not start with a digit; neither
part may be empty. The cut stands one byte behind the start of the last other character. -/
def signature? (head : Text) : Except BadCut (Option (Text × Text)) := do
  let head := trim head
  let front := (splitTrailing isNameChar head).1
  let cut := if front.isEmpty then 0 else size front.dropLast + 1
  let result := typeSpelling (← slice 0 cut head)
  let name ← slice cut (size head) head
  if result.isEmpty || name.isEmpty || (name.head?.any Char.isDigit) then return none
  else return some (result, name)

/-- Reads the parameter at a position of the list. The last word is the name, after any markers
stuck to its front; a single word is a type, and the name is made from the position. -/
def parameter (index : Nat) (t : Text) : Parameter :=
  match splitAtLastBlank? t with
  | some (type, name) =>
    let isMarker := fun c => c == '*' || c == '&'
    ⟨typeSpelling (type ++ name.takeWhile isMarker), name.dropWhile isMarker⟩
  | none => ⟨typeSpelling t, "p" ++ Nat.toDigits 10 index⟩

/-- Reads a parameter list; `void` alone stands for no parameters and blank pieces are none. -/
def parameters (list : Text) : List Parameter :=
  if trim list = "void" then []
  else
    (((splitTopLevel ',' list).map trim).filter (!·.isEmpty)).mapIdx parameter

/-- Moves past the opening mark at `offset` and on to the next `keyword`, whatever encloses
it. -/
def recover (keyword : Text) (offset : Nat) (s : Cursor) : Except BadCut Cursor := do
  return (← (s.moveTo (offset + 1)).seekWord keyword).2

/-- Reads the next function of a namespace body. -/
def functionRound (scope : Text) (s : Cursor) : Except BadCut (Round NativeFunction) := do
  let (some start, s) ← s.passKeyword "static" | return .finished
  let headStart := s.pos
  let (target?, s) ← s.upToAny ['(', ';', '{', '}']
  match target? with
  | none => return .finished
  | some ('(', paren) =>
    let head ← slice headStart paren s.text
    match (← signature? head) with
    | none =>
      let problem := Problem.malformedHead scope head start paren
      match (← s.block '(' ')') with
      | (.ok _, next) => return .found (.problem problem) next
      | (.error _, _) => return .found (.problem problem) (← recover "static" paren s)
    | some (result, name) =>
      match (← s.block '(' ')') with
      | (.error cause, _) =>
        return .found (.problem (.functionBlock scope name cause start paren))
          (← recover "static" paren s)
      | (.ok (opening, closing), s) =>
        let s ← s.skipBlanks
        if (← s.peek) ≠ some '{' then
          return .found (.problem (.missingBody scope name start s.pos)) s
        match (← s.block '{' '}') with
        | (.error cause, _) =>
          return .found (.problem (.functionBlock scope name cause start paren))
            (← recover "static" s.pos s)
        | (.ok _, next) =>
          let list ← slice (opening + 1) closing s.text
          return .found
            (.item ⟨scope, result, name, parameters list, .between start next.pos⟩) next
  | some (found, offset) =>
    let problem := Problem.notAFunction scope start offset
    if found = '{' then
      match (← s.block '{' '}') with
      | (.ok _, next) => return .found (.problem problem) next
      | (.error _, _) => return .found (.problem problem) (s.moveTo (offset + 1))
    else return .found (.problem problem) (s.moveTo (offset + 1))

/-- Reads the next namespace block and all functions in it. -/
def namespaceRound (s : Cursor) : Except BadCut (Round NativeFunction) := do
  let (some start, s) ← s.passKeyword "namespace" | return .finished
  let s ← s.skipBlanks
  match (← s.name) with
  | (none, s) => return .found (.problem (.unnamedNamespace start s.pos)) s
  | (some (name, place), s) =>
    let s ← s.skipBlanks
    match (← s.block '{' '}') with
    | (.error cause, _) =>
      let problem := Problem.namespaceBlock name cause place
      match cause with
      | .unterminated .. => return .found (.problem problem) (← recover "namespace" s.pos s)
      | .expected .. => return .found (.problem problem) s
    | (.ok (opening, closing), next) =>
      return .found (← collect (functionRound name) ⟨s.text, opening + 1, closing⟩) next

/-- The native functions of a comment-free text. -/
def functionsIn (t : Text) : Except BadCut (Findings NativeFunction) :=
  collect namespaceRound (.ofText t)

/-- The native functions of a header. -/
def functionsOf (raw : Text) : Except BadCut (Findings NativeFunction) :=
  functionsIn (blankComments raw)

end HeaderBindings.Header
