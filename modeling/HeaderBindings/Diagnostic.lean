import HeaderBindings.Source
import HeaderBindings.Span

/-! Diagnostics: structural problems of a header, which never stop a run. -/

namespace HeaderBindings

/-- A remark on a byte range. -/
structure Label where
  text : Text
  offset : UInt32
  length : UInt32
deriving DecidableEq, Repr

/-- A problem with what is known about its place and its remedy. -/
structure Diagnostic where
  message : Text
  span : Option Span := none
  labels : List Label := []
  help : Option Text := none
deriving DecidableEq, Repr

namespace Diagnostic

/-- A diagnostic that has a message only. -/
def ofMessage (message : Text) : Diagnostic := { message }

/-- The diagnostic placed at a span. -/
def locatedAt (span : Span) (d : Diagnostic) : Diagnostic := { d with span := some span }

/-- The diagnostic with a label on its span. Without a span the label is dropped. -/
def labelled (text : Text) (d : Diagnostic) : Diagnostic :=
  match d.span with
  | some span => { d with labels := d.labels ++ [⟨text, span.start, span.length⟩] }
  | none => d

/-- The diagnostic with a hint. -/
def hinting (help : Text) (d : Diagnostic) : Diagnostic := { d with help := some help }

/-- One line: where the problem is, as closely as known, and what it is. -/
def summary (file : SourceFile) (d : Diagnostic) : Text :=
  let place := match d.span with
    | some span => file.location span.start
    | none => file.path
  place ++ ": " ++ d.message

end Diagnostic

end HeaderBindings
