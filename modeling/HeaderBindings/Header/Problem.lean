import HeaderBindings.Diagnostic
import HeaderBindings.Header.Cursor

/-! The structural problems that the header parsers report, and their wording. -/

namespace HeaderBindings.Header

/-- A block that was skipped. Offsets are those of the keyword that started it and of the place
where reading gave up. -/
inductive Problem where
  | unnamedEnum (start stop : Nat)
  | enumWithoutBody (name : Text) (place : Span)
  | malformedEnum (name : Text) (cause : BlockFault)
  | unnamedNamespace (start stop : Nat)
  | namespaceBlock (name : Text) (cause : BlockFault) (place : Span)
  | notAFunction (scope : Text) (start stop : Nat)
  | malformedHead (scope head : Text) (start stop : Nat)
  | functionBlock (scope name : Text) (cause : BlockFault) (start stop : Nat)
  | missingBody (scope name : Text) (start stop : Nat)
deriving DecidableEq, Repr

/-- The report of a block that could not be read. -/
def blockDiagnostic (what : Text) (cause : BlockFault) (place : Span) : Diagnostic :=
  let message : Text := match cause with
    | .unterminated .. => what ++ " has an unterminated block"
    | .expected opening _ => what ++ ": expected `" ++ [opening] ++ "`"
  Diagnostic.ofMessage message |>.locatedAt place |>.labelled "skipped"
    |>.hinting "the block does not have the expected brace shape"

/-- The diagnostic that reports a problem. -/
def Problem.diagnostic : Problem → Diagnostic
  | unnamedEnum start stop =>
    Diagnostic.ofMessage "enum without a name" |>.locatedAt (.between start stop)
      |>.labelled "skipped"
  | enumWithoutBody name place =>
    Diagnostic.ofMessage ("enum `" ++ name ++ "` has no body") |>.locatedAt place
      |>.labelled "declared here"
  | malformedEnum name cause =>
    Diagnostic.ofMessage ("enum `" ++ name ++ "` is malformed: " ++ cause.message)
      |>.locatedAt (.between cause.offset (cause.offset + 1)) |>.labelled "block starts here"
      |>.hinting "the block was skipped; check for unmatched braces"
  | unnamedNamespace start stop =>
    Diagnostic.ofMessage "namespace without a name" |>.locatedAt (.between start stop)
      |>.labelled "skipped"
  | namespaceBlock name cause place => blockDiagnostic ("namespace `" ++ name ++ "`") cause place
  | notAFunction scope start stop =>
    Diagnostic.ofMessage ("expected a function declaration in namespace `" ++ scope ++ "`")
      |>.locatedAt (.between start stop) |>.labelled "not a function"
  | malformedHead scope head start stop =>
    Diagnostic.ofMessage
      ("malformed declaration `" ++ Text.trim head ++ "` in namespace `" ++ scope ++ "`")
      |>.locatedAt (.between start stop)
  | functionBlock scope name cause start stop =>
    blockDiagnostic ("`" ++ scope ++ "::" ++ name ++ "`") cause (.between start stop)
  | missingBody scope name start stop =>
    Diagnostic.ofMessage ("`" ++ scope ++ "::" ++ name ++ "` has no body")
      |>.locatedAt (.between start stop) |>.labelled "declaration skipped"

end HeaderBindings.Header
