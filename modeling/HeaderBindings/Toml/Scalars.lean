import HeaderBindings.Text.Pieces
import HeaderBindings.Toml.Node

/-! Numbers, dates and times of TOML. Each reader gives what it read and the rest of the text. -/

namespace HeaderBindings.Toml

open Text

/-- The number that decimal digits spell. -/
def ofDecimal (digits : Text) : Nat :=
  digits.foldl (fun n c => n * 10 + (c.toNat - '0'.toNat)) 0

/-- The number that digits of a base up to sixteen spell. -/
def ofDigits (base : Nat) (digits : Text) : Nat :=
  digits.foldl (fun n c => n * base +
    (if c.isDigit then c.toNat - '0'.toNat else c.toLower.toNat - 'a'.toNat + 10)) 0

/-- Digits in which underscores may stand between two digits; gives the digits alone. -/
def groupedDigits? (isDigit : Char → Bool) (t : Text) : Option (Text × Text) :=
  let run := t.takeWhile fun c => isDigit c || c == '_'
  let groups := pieces (· == '_') run
  if groups.any (·.isEmpty) then none else some (groups.flatten, t.drop run.length)

/-- A sign, if there is one. -/
def sign (t : Text) : Text × Text :=
  match t with
  | '+' :: rest => (['+'], rest)
  | '-' :: rest => (['-'], rest)
  | _ => ([], t)

/-- The digits of a decimal integer, which has no leading zero. -/
def decimalDigits? : Text → Option (Text × Text)
  | '0' :: rest => some (['0'], rest)
  | t => groupedDigits? Char.isDigit t

/-- What was passed between a text and its rest. -/
def passed (t rest : Text) : Text := t.take (t.length - rest.length)

/-- Whether `digits * 10 ^ scale` lies so high that the nearest double is infinite, that is, at
or above the middle between the largest finite double and the next power of two. -/
def overflows (digits : Nat) (scale : Int) : Bool :=
  let bound := (Nat.pow 2 54 - 1) * Nat.pow 2 970
  let magnitude := (Nat.toDigits 10 digits).length + scale
  if digits = 0 || magnitude < 300 then false
  else if 320 < magnitude then true
  else if 0 ≤ scale then bound ≤ digits * Nat.pow 10 scale.toNat
  else bound * Nat.pow 10 (-scale).toNat ≤ digits

/-- The digits after a decimal point. -/
def fraction? : Text → Option (Text × Text)
  | '.' :: rest => groupedDigits? Char.isDigit rest
  | _ => none

/-- The exponent of a number. -/
def exponent? : Text → Option (Int × Text)
  | 'e' :: rest | 'E' :: rest => do
    let (mark, rest) := sign rest
    let (digits, rest) ← groupedDigits? Char.isDigit rest
    let n : Int := ofDecimal digits
    return (if mark = ['-'] then -n else n, rest)
  | _ => none

/-- A number with a fraction or an exponent. Positive ones beyond the doubles are refused. -/
def decimalFloat? (t : Text) : Option (Node × Text) := do
  let (mark, rest) := sign t
  let (whole, rest) ← decimalDigits? rest
  let (part, power, rest) ← tail? rest
  guard (mark = ['-'] || !overflows (ofDecimal (whole ++ part)) (power - part.length))
  return (.float (passed t rest), rest)
where
  /-- The digits after the point and the exponent, of which one may be missing. -/
  tail? (t : Text) : Option (Text × Int × Text) :=
    match exponent? t with
    | some (power, rest) => some ([], power, rest)
    | none =>
      (fraction? t).map fun (part, rest) =>
        match exponent? rest with
        | some (power, rest) => (part, power, rest)
        | none => (part, 0, rest)

/-- An infinity or a number that is none. -/
def specialFloat? (t : Text) : Option (Node × Text) := do
  let (_, rest) := sign t
  let rest ← (afterStart? "inf" rest) <|> (afterStart? "nan" rest)
  return (.float (passed t rest), rest)

/-- Whether a number fits 64 bits with a sign. -/
def fits64 (n : Int) : Bool := -9223372036854775808 ≤ n && n < 9223372036854775808

/-- An integer. One in another base than ten has no sign. -/
def integer? (t : Text) : Option (Node × Text) := do
  let (n, rest) ← match t with
    | '0' :: 'x' :: rest => ofBase 16 isHexDigit rest
    | '0' :: 'o' :: rest => ofBase 8 (fun c => '0' ≤ c ∧ c ≤ '7') rest
    | '0' :: 'b' :: rest => ofBase 2 (fun c => c = '0' ∨ c = '1') rest
    | _ => signed t
  guard (fits64 n)
  return (.integer n, rest)
where
  /-- Whether a character is a hexadecimal digit. -/
  isHexDigit (c : Char) : Bool := c.isDigit || ('a' ≤ c.toLower && c.toLower ≤ 'f')
  /-- A decimal integer. -/
  signed (t : Text) : Option (Int × Text) := do
    let (mark, rest) := sign t
    let (digits, rest) ← decimalDigits? rest
    let n : Int := ofDecimal digits
    return (if mark = ['-'] then -n else n, rest)
  /-- The digits after the mark of a base. -/
  ofBase (base : Nat) (isDigit : Char → Bool) (t : Text) : Option (Int × Text) := do
    let (digits, rest) ← groupedDigits? isDigit t
    return ((ofDigits base digits : Nat), rest)

/-- A number of exactly so many digits within bounds. -/
def digits? (count low high : Nat) (t : Text) : Option (Nat × Text) := do
  let digits := t.take count
  guard (digits.length = count && digits.all Char.isDigit)
  let n := ofDecimal digits
  guard (low ≤ n && n ≤ high)
  return (n, t.drop count)

/-- What follows one given character. -/
def afterChar? (c : Char) : Text → Option Text
  | d :: rest => if c = d then some rest else none
  | [] => none

/-- How many days a month has. -/
def daysIn (year month : Nat) : Nat :=
  let isLeap := year % 4 = 0 ∧ (year % 100 ≠ 0 ∨ year % 400 = 0)
  if month = 2 then if isLeap then 29 else 28
  else if month ∈ [4, 6, 9, 11] then 30
  else 31

/-- What follows a date that exists. -/
def afterDate? (t : Text) : Option Text := do
  let (year, t) ← digits? 4 0 9999 t
  let (month, t) ← digits? 2 1 12 (← afterChar? '-' t)
  let (_, t) ← digits? 2 1 (daysIn year month) (← afterChar? '-' t)
  return t

/-- What follows a time of day. Seconds are required, and a leap second is one. -/
def afterTime? (t : Text) : Option Text := do
  let (_, t) ← digits? 2 0 23 t
  let (_, t) ← digits? 2 0 59 (← afterChar? ':' t)
  let (_, t) ← digits? 2 0 60 (← afterChar? ':' t)
  match t with
  | '.' :: c :: rest => if c.isDigit then return rest.dropWhile Char.isDigit else return t
  | _ => return t

/-- What follows an offset from universal time. -/
def afterOffset? : Text → Option Text
  | 'Z' :: rest | 'z' :: rest => some rest
  | '+' :: rest | '-' :: rest => do
    let (_, rest) ← digits? 2 0 23 rest
    let (_, rest) ← digits? 2 0 59 (← afterChar? ':' rest)
    return rest
  | _ => none

/-- A date, a time, or both with or without an offset. -/
def dateTime? (t : Text) : Option (Node × Text) := do
  let rest ← afterWhole? t <|> afterTime? t
  return (.dateTime (passed t rest), rest)
where
  /-- What follows a date and the time that may come with it. -/
  afterWhole? (t : Text) : Option Text := do
    let day ← afterDate? t
    let time? := match day with
      | 'T' :: rest | 't' :: rest | ' ' :: rest => afterTime? rest
      | _ => none
    match time? with
    | none => return day
    | some time => return (afterOffset? time).getD time

/-- A value that starts like a number. -/
def numeric? (t : Text) : Option (Node × Text) :=
  dateTime? t <|> decimalFloat? t <|> specialFloat? t <|> integer? t

end HeaderBindings.Toml
