import HeaderBindings.Text.Pieces

/-! Comments, blanks and strings of TOML. Each reader gives what it read and the rest of the
text, or nothing if the text is malformed. -/

namespace HeaderBindings.Toml

open Text

/-- The characters that may stand in comments and strings: no control character but the tab. -/
def isPlain (c : Char) : Bool := c == '\t' || (0x20 ≤ c.toNat && c.toNat != 0x7F)

/-- The blanks within a line. -/
def isLineBlank (c : Char) : Bool := c == ' ' || c == '\t'

/-- A text without its leading blanks. -/
def skipBlanks (t : Text) : Text := t.dropWhile isLineBlank

/-- What follows a newline. -/
def afterNewline? : Text → Option Text
  | '\n' :: rest => some rest
  | '\r' :: '\n' :: rest => some rest
  | _ => none

/-- What follows the rest of a line that holds no more than blanks and a comment. -/
def afterLine? (t : Text) : Option Text :=
  let t := skipBlanks t
  let t := if t.head? = some '#' then t.dropWhile isPlain else t
  if t.isEmpty then some [] else afterNewline? t

/-- What follows blanks, newlines and comments; a comment must be closed by a newline unless the
text ends. -/
def afterLayout? (inComment : Bool) : Text → Option Text
  | [] => some []
  | '\n' :: rest => afterLayout? false rest
  | '\r' :: '\n' :: rest => afterLayout? false rest
  | c :: rest =>
    if inComment then if isPlain c then afterLayout? true rest else none
    else if isLineBlank c then afterLayout? false rest
    else if c = '#' then afterLayout? true rest
    else some (c :: rest)

/-- The value of a hexadecimal digit. -/
def hexDigit? (c : Char) : Option Nat :=
  if c.isDigit then some (c.toNat - '0'.toNat)
  else if 'a' ≤ c ∧ c ≤ 'f' then some (c.toNat - 'a'.toNat + 10)
  else if 'A' ≤ c ∧ c ≤ 'F' then some (c.toNat - 'A'.toNat + 10)
  else none

/-- The character with the code point that hexadecimal digits spell. -/
def charOfHex? (digits : List Char) : Option Char := do
  let values ← digits.mapM hexDigit?
  let n := values.foldl (fun n value => n * 16 + value) 0
  if n.isValidChar then some (Char.ofNat n) else none

/-- The character of an escape of one letter. -/
def escaped? : Char → Option Char
  | 'b' => some '\x08'
  | 't' => some '\t'
  | 'n' => some '\n'
  | 'f' => some '\x0c'
  | 'r' => some '\r'
  | '"' => some '"'
  | '\\' => some '\\'
  | _ => none

/-- A string on one line, after its opening quote. -/
def basicString? : Text → Option (Text × Text)
  | '"' :: rest => some ([], rest)
  | '\\' :: 'u' :: a :: b :: c :: d :: rest => do
    let character ← charOfHex? [a, b, c, d]
    let (value, after) ← basicString? rest
    return (character :: value, after)
  | '\\' :: 'U' :: a :: b :: c :: d :: e :: f :: g :: h :: rest => do
    let character ← charOfHex? [a, b, c, d, e, f, g, h]
    let (value, after) ← basicString? rest
    return (character :: value, after)
  | '\\' :: c :: rest => do
    let character ← escaped? c
    let (value, after) ← basicString? rest
    return (character :: value, after)
  | c :: rest => do
    guard (c != '\\' && isPlain c)
    let (value, after) ← basicString? rest
    return (c :: value, after)
  | [] => none

/-- A literal string on one line, after its opening quote. -/
def literalString? : Text → Option (Text × Text)
  | '\'' :: rest => some ([], rest)
  | c :: rest => do
    guard (isPlain c)
    let (value, after) ← literalString? rest
    return (c :: value, after)
  | [] => none

/-- The end of a string of several lines: three quotes, which up to two quotes of the string may
precede. Gives those and the rest. -/
def afterClosing? (quote : Char) (t : Text) : Option (Text × Text) :=
  let count := (t.takeWhile (· == quote)).length
  if count < 3 then none
  else some (List.replicate (min (count - 3) 2) quote, t.drop (min count 5))

/-- A string of several lines, after its opening quotes. After a backslash at the end of a line,
blanks and newlines are passed up to the next other character; `isPassing` says that this is
going on. -/
def basicLines? (isPassing : Bool) : Text → Option (Text × Text)
  | '\n' :: rest => do
    let (value, after) ← basicLines? isPassing rest
    return (if isPassing then value else '\n' :: value, after)
  | '\r' :: '\n' :: rest => do
    let (value, after) ← basicLines? isPassing rest
    return (if isPassing then value else '\n' :: value, after)
  | '\\' :: 'u' :: a :: b :: c :: d :: rest => do
    let character ← charOfHex? [a, b, c, d]
    let (value, after) ← basicLines? false rest
    return (character :: value, after)
  | '\\' :: 'U' :: a :: b :: c :: d :: e :: f :: g :: h :: rest => do
    let character ← charOfHex? [a, b, c, d, e, f, g, h]
    let (value, after) ← basicLines? false rest
    return (character :: value, after)
  | '\\' :: c :: rest =>
    if (afterNewline? (skipBlanks (c :: rest))).isSome then basicLines? true (c :: rest)
    else do
      let character ← escaped? c
      let (value, after) ← basicLines? false rest
      return (character :: value, after)
  | c :: rest =>
    if isPassing && isLineBlank c then basicLines? true rest
    else
      match if c = '"' then afterClosing? '"' (c :: rest) else none with
      | some found => some found
      | none => do
        guard (c != '\\' && isPlain c)
        let (value, after) ← basicLines? false rest
        return (c :: value, after)
  | [] => none

/-- A literal string of several lines, after its opening quotes. -/
def literalLines? : Text → Option (Text × Text)
  | '\n' :: rest => do
    let (value, after) ← literalLines? rest
    return ('\n' :: value, after)
  | '\r' :: '\n' :: rest => do
    let (value, after) ← literalLines? rest
    return ('\n' :: value, after)
  | c :: rest =>
    match if c = '\'' then afterClosing? '\'' (c :: rest) else none with
    | some found => some found
    | none => do
      guard (isPlain c)
      let (value, after) ← literalLines? rest
      return (c :: value, after)
  | [] => none

/-- A text without a newline at its start. -/
def dropNewline (t : Text) : Text := (afterNewline? t).getD t

/-- A string of any of the four kinds. -/
def string? : Text → Option (Text × Text)
  | '"' :: '"' :: '"' :: rest => basicLines? false (dropNewline rest)
  | '"' :: rest => basicString? rest
  | '\'' :: '\'' :: '\'' :: rest => literalLines? (dropNewline rest)
  | '\'' :: rest => literalString? rest
  | _ => none

end HeaderBindings.Toml
