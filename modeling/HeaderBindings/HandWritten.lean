import HeaderBindings.Keyed
import HeaderBindings.Text.Name

/-! The natives that have hand-written implementations, collected from the sources that mention
them by qualified name. -/

namespace HeaderBindings

open Text

/-- The characters of a namespace in a mention: capitals, digits and underscores. -/
def isScopeChar (c : Char) : Bool := c.isUpper || c.isDigit || c == '_'

/-- The qualified name at the start of a text, with what follows it: a namespace that starts
with a capital, two colons and a function name. -/
def mentionAtStart? : Text → Option (Text × Text)
  | [] => none
  | c :: rest =>
    if c.isUpper then
      match rest.dropWhile isScopeChar with
      | ':' :: ':' :: after =>
        let function := after.takeWhile isNameChar
        if function.isEmpty then none
        else
          some (c :: rest.takeWhile isScopeChar ++ "::" ++ function, after.dropWhile isNameChar)
      | _ => none
    else none

theorem length_of_mentionAtStart? {t found after : Text}
    (h : mentionAtStart? t = some (found, after)) : after.length < t.length := by
  cases t with
  | nil => simp [mentionAtStart?] at h
  | cons c rest =>
      simp only [mentionAtStart?] at h
      split at h
      · split at h
        next tail hrest =>
          split at h
          · simp at h
          · simp only [Option.some.injEq, Prod.mk.injEq] at h
            have h1 : (rest.dropWhile isScopeChar).length ≤ rest.length :=
              (List.dropWhile_suffix _).length_le
            have h2 : (tail.dropWhile isNameChar).length ≤ tail.length :=
              (List.dropWhile_suffix _).length_le
            rw [hrest] at h1
            rw [← h.2]
            simp only [List.length_cons] at h1 ⊢
            omega
        · simp at h
      · simp at h

/-- The qualified names mentioned in a text, from left to right. A mention may not follow a word
character, and the next one is looked for behind it. -/
def mentions (before? : Option Char) (t : Text) : List Text :=
  match t with
  | [] => []
  | c :: rest =>
    match _hfound : if before?.any isWordChar then none else mentionAtStart? (c :: rest) with
    | some (found, after) => found :: mentions found.getLast? after
    | none => mentions (some c) rest
termination_by t.length
decreasing_by
  · split at _hfound
    · simp at _hfound
    · exact length_of_mentionAtStart? _hfound
  · simp

/-- The qualified names to leave out, in ascending order. -/
structure HandWritten where
  names : List Text := []
deriving DecidableEq, Repr

namespace HandWritten

/-- Adds one qualified name. -/
def insert (name : Text) (o : HandWritten) : HandWritten := ⟨Keyed.insert id name o.names⟩

/-- The set of the given names. -/
def ofNames (names : List Text) : HandWritten := names.foldl (fun o name => o.insert name) {}

/-- Adds every qualified name that a source mentions. -/
def addMentions (source : Text) (o : HandWritten) : HandWritten :=
  (mentions none source).foldl (fun o name => o.insert name) o

/-- Whether a qualified name is to be left out. -/
def contains (name : Text) (o : HandWritten) : Bool := o.names.any (· = name)

end HandWritten

end HeaderBindings
