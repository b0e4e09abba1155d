import HeaderBindings.Classification
import HeaderBindings.Text.Quoted

/-! Listings of what was read from a header, for inspection. -/

namespace HeaderBindings.Listing

/-- A line with four blanks for every level. -/
def line (level : Nat) (t : Text) : Text := List.replicate (4 * level) ' ' ++ t ++ "\n"

/-- A parameter inside the listing of its function. -/
def parameter (p : Parameter) : Text :=
  line 2 "Parameter \x7b" ++
  line 3 ("ty: " ++ Text.quoted p.type ++ ",") ++
  line 3 ("name: " ++ Text.quoted p.name ++ ",") ++
  line 2 "\x7d,"

/-- A function with all its fields, one to a line. -/
def declaration (d : NativeFunction) : Text :=
  line 0 "Declaration \x7b" ++
  line 1 ("namespace: " ++ Text.quoted d.scope ++ ",") ++
  line 1 ("return_type: " ++ Text.quoted d.result ++ ",") ++
  line 1 ("name: " ++ Text.quoted d.name ++ ",") ++
  (if d.params.isEmpty then line 1 "params: [],"
    else line 1 "params: [" ++ d.params.flatMap parameter ++ line 1 "],") ++
  line 1 "span: Span \x7b" ++
  line 2 ("start: " ++ Nat.toDigits 10 d.span.start.toNat ++ ",") ++
  line 2 ("end: " ++ Nat.toDigits 10 d.span.stop.toNat ++ ",") ++
  line 1 "\x7d," ++
  line 0 "\x7d"

/-- The functions one after the other. -/
def declarations (functions : List NativeFunction) : Text := functions.flatMap declaration

/-- A text filled up with blanks to a width in characters. -/
def padded (width : Nat) (t : Text) : Text := t ++ List.replicate (width - t.length) ' '

/-- A member: kind, exposed name and qualified name in columns. -/
def member (m : Member) : Text :=
  line 0 ("  " ++ padded 7 m.kind.word ++ " " ++ padded 32 m.exposed ++ " " ++
    m.function.qualifiedName)

/-- The members of every type, and the declarations left out. -/
def members (c : Classification) : Text :=
  (c.types.flatMap fun b =>
    line 0 (b.typeName ++ " (" ++ Nat.toDigits 10 b.size ++ " members)") ++
      b.members.flatMap member) ++
  c.skipped.flatMap fun (name, reason) =>
    line 0 ("skipped " ++ name ++ " (" ++ reason.message ++ ")")

end HeaderBindings.Listing
