/-! Text as characters, measured in bytes. Every offset of this library counts the bytes of the
UTF-8 form of a text, so a cut can miss: it may be reversed, reach past the end or fall inside a
character. `Text.slice` is the one way to cut at offsets, and `slice_append` says that a cut
around any part of a text gives back that part. -/

namespace HeaderBindings

/-- Text is a list of characters. -/
abbrev Text := List Char

/-- A string literal stands for its characters. -/
instance : Coe String Text := ⟨String.toList⟩

/-- A cut between two byte offsets at which a text has no part: the ends are reversed, lie
outside of the text or inside a character. -/
structure BadCut where
  start : Nat
  stop : Nat
deriving DecidableEq, Repr

namespace Text

/-- The length in bytes. -/
def size : Text → Nat
  | [] => 0
  | c :: rest => c.utf8Size + size rest

@[simp] theorem size_nil : size [] = 0 := rfl

@[simp] theorem size_cons (c : Char) (rest : Text) :
    size (c :: rest) = c.utf8Size + size rest := rfl

@[simp] theorem size_append (s t : Text) : size (s ++ t) = size s + size t := by
  induction s with
  | nil => simp
  | cons c rest ih => simp [ih, Nat.add_assoc]

/-- The text after the first bytes, if a character starts there or the text ends there. -/
def dropBytes? : Nat → Text → Option Text
  | 0, t => some t
  | _ + 1, [] => none
  | n + 1, c :: rest =>
    if c.utf8Size ≤ n + 1 then dropBytes? (n + 1 - c.utf8Size) rest else none

/-- The first bytes of a text, if a character ends there. -/
def takeBytes? : Nat → Text → Option Text
  | 0, _ => some []
  | _ + 1, [] => none
  | n + 1, c :: rest =>
    if c.utf8Size ≤ n + 1 then (takeBytes? (n + 1 - c.utf8Size) rest).map (c :: ·) else none

/-- The part of a text between two byte offsets. -/
def slice (start stop : Nat) (t : Text) : Except BadCut Text :=
  match if start ≤ stop then (dropBytes? start t).bind (takeBytes? (stop - start)) else none with
  | some part => .ok part
  | none => .error ⟨start, stop⟩

/-- A text split at the first character that starts at the byte offset or after it. -/
def splitFrom : Nat → Text → Text × Text
  | 0, t => ([], t)
  | _ + 1, [] => ([], [])
  | n + 1, c :: rest =>
    let (before, after) := splitFrom (n + 1 - c.utf8Size) rest
    (c :: before, after)

/-- The characters that fit whole into the given number of bytes. -/
def within : Nat → Text → Text
  | _, [] => []
  | n, c :: rest => if c.utf8Size ≤ n then c :: within (n - c.utf8Size) rest else []

theorem one_le_utf8Size (c : Char) : 1 ≤ c.utf8Size := c.utf8Size_pos

theorem dropBytes?_append (s t : Text) : dropBytes? (size s) (s ++ t) = some t := by
  induction s with
  | nil => simp [dropBytes?]
  | cons c rest ih =>
      obtain ⟨n, hn⟩ := Nat.exists_eq_add_of_le' (one_le_utf8Size c)
      have hs : size (c :: rest) = (n + size rest) + 1 := by simp only [size_cons]; omega
      rw [hs, List.cons_append, dropBytes?, if_pos (by omega)]
      rw [show n + size rest + 1 - c.utf8Size = size rest by omega]
      exact ih

theorem takeBytes?_append (s t : Text) : takeBytes? (size s) (s ++ t) = some s := by
  induction s with
  | nil => simp [takeBytes?]
  | cons c rest ih =>
      obtain ⟨n, hn⟩ := Nat.exists_eq_add_of_le' (one_le_utf8Size c)
      have hs : size (c :: rest) = (n + size rest) + 1 := by simp only [size_cons]; omega
      rw [hs, List.cons_append, takeBytes?, if_pos (by omega)]
      rw [show n + size rest + 1 - c.utf8Size = size rest by omega, ih]
      rfl

/-- A cut around a part gives that part. -/
theorem slice_append (before part after : Text) :
    slice (size before) (size before + size part) (before ++ part ++ after) = .ok part := by
  simp [slice, dropBytes?_append, takeBytes?_append]

end Text

end HeaderBindings
