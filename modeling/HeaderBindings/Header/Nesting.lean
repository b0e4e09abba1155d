import HeaderBindings.Text.Name
import HeaderBindings.Text.Pieces

/-! Searches over the rest of a text that heed nesting: the end of a block, the first target
outside of nested blocks, whole words, and splitting at a separator. Offsets are relative to the
start of the text that is searched. -/

namespace HeaderBindings.Header

open Text

/-- Whether a search for whole words may start or end next to this character. -/
def separatesWords (c? : Option Char) : Bool := c?.all (!isNameChar ·)

/-- What follows the keyword, if the text starts with it as a whole word. -/
def afterWord? (keyword : Text) (before? : Option Char) (t : Text) : Option Text :=
  match afterStart? keyword t with
  | some rest => if separatesWords before? && separatesWords rest.head? then some rest else none
  | none => none

/-- The text up to the first whole word `keyword`, nested or not. An occurrence that is part of
a longer word is passed over in one piece. -/
def upToWord? (keyword : Text) (before? : Option Char) : Text → Option Text
  | [] => if keyword.isEmpty && separatesWords before? then some [] else none
  | c :: rest =>
    if startsWith keyword (c :: rest) then
      if (afterWord? keyword before? (c :: rest)).isSome then some []
      else
        let skipped := (c :: rest).take (max keyword.length 1)
        (upToWord? keyword skipped.getLast? (rest.drop (keyword.length - 1))).map (skipped ++ ·)
    else (upToWord? keyword (some c) rest).map (c :: ·)
termination_by t => t.length
decreasing_by
  · simp only [List.length_drop, List.length_cons]; omega
  · simp

/-- The depth of braces after one more character; a closing brace at depth zero is ignored. -/
def braceDepthAfter (depth : Nat) : Char → Nat
  | '{' => depth + 1
  | '}' => depth - 1
  | _ => depth

/-- The offset of the first whole word `keyword` outside of braces. The keyword may not start
with a brace. The empty keyword also stands between the bytes of one longer character. -/
def offsetOfKeyword? (keyword : Text) (depth : Nat) (before? : Option Char) :
    Text → Option Nat
  | [] => none
  | c :: rest =>
    if c != '{' && c != '}' && depth == 0 && (afterWord? keyword before? (c :: rest)).isSome then
      some 0
    else if keyword.isEmpty && depth == 0 && 1 < c.utf8Size then some 1
    else
      (offsetOfKeyword? keyword (braceDepthAfter depth c) (some c) rest).map (c.utf8Size + ·)

/-- The depth of braces and parentheses after one more character. -/
def groupDepthAfter (depth : Nat) : Char → Nat
  | '{' | '(' => depth + 1
  | '}' | ')' => depth - 1
  | _ => depth

/-- The text before the first of the targets outside of braces and parentheses, and the target
that was found. A target is looked for before it counts as an opening or closing mark. -/
def upToTarget? (targets : List Char) (depth : Nat) : Text → Option (Text × Char)
  | [] => none
  | c :: rest =>
    if depth == 0 && targets.contains c then some ([], c)
    else
      (upToTarget? targets (groupDepthAfter depth c) rest).map fun (t, found) => (c :: t, found)

/-- The text inside a block, given what follows its opening mark; `depth` blocks are open inside
of it. Equal marks never close. -/
def blockInside? (opening closing : Char) (depth : Nat) : Text → Option Text
  | [] => none
  | c :: rest =>
    if c = opening then (blockInside? opening closing (depth + 1) rest).map (c :: ·)
    else if c = closing then
      match depth with
      | 0 => some []
      | depth + 1 => (blockInside? opening closing depth rest).map (c :: ·)
    else (blockInside? opening closing depth rest).map (c :: ·)

/-- The depth of brackets of all three kinds after one more character. -/
def bracketDepthAfter (depth : Nat) : Char → Nat
  | '(' | '[' | '{' => depth + 1
  | ')' | ']' | '}' => depth - 1
  | _ => depth

/-- Whether a character is a bracket of one of the three kinds. -/
def isBracket (c : Char) : Bool := c ∈ ['(', '[', '{', ')', ']', '}']

/-- The parts of a text between the separators that stand outside of all brackets. A bracket
does not separate. -/
def splitOutsideBrackets (separator : Char) (depth : Nat) : Text → List Text
  | [] => [[]]
  | c :: rest =>
    if !isBracket c && c == separator && depth == 0 then
      [] :: splitOutsideBrackets separator depth rest
    else
      match splitOutsideBrackets separator (bracketDepthAfter depth c) rest with
      | [] => [[c]]
      | first :: others => (c :: first) :: others

/-- The parts of a text between separators that are not inside parentheses, brackets or
braces. -/
def splitTopLevel (separator : Char) (t : Text) : List Text :=
  splitOutsideBrackets separator 0 t

end HeaderBindings.Header
