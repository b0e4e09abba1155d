import HeaderBindings.Text.Basic
import HeaderBindings.Text.Table.Escaped

/-! Quoted text: a text between double quotes in which a quote, a backslash and every character
without a printed form of its own are escaped. -/

namespace HeaderBindings.Text

/-- The escape of a character that has one of one letter. -/
def shortEscape? (c : Char) : Option Char :=
  match c with
  | '\x00' => some '0'
  | '\t' => some 't'
  | '\r' => some 'r'
  | '\n' => some 'n'
  | '\\' => some '\\'
  | '"' => some '"'
  | _ => none

/-- How one character is written inside quotes: as itself, by a letter or by its code point. -/
def quotedChar (c : Char) : Text :=
  match shortEscape? c with
  | some letter => ['\\', letter]
  | none =>
    if Table.covers Table.escapedRanges c then
      "\\u\x7b" ++ Nat.toDigits 16 c.toNat ++ "\x7d"
    else [c]

/-- A text in double quotes. -/
def quoted (t : Text) : Text := "\"" ++ t.flatMap quotedChar ++ "\""

end HeaderBindings.Text
