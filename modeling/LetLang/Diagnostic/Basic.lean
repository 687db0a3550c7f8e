import LetLang.Text.Span
import LetLang.Text.Template

/-! Diagnostics: catalogued messages with their arguments put in, and where they apply. -/

namespace LetLang

namespace Diagnostic

/-- How grave a diagnostic is. -/
inductive Category where
  | warning
  | error
  | message
  deriving DecidableEq

/-- How output calls a category. -/
def Category.describe : Category → String
  | warning => "warning"
  | error => "error"
  | message => "message"

/-- A message of the catalogue, with placeholders for its arguments. -/
structure Entry where
  code : Nat
  category : Category
  template : String
  deriving DecidableEq

namespace Entry

/-- A certain token was expected. -/
def tokenExpected : Entry :=
  ⟨1001, .error, "Expected \x7b0\x7d but found \x7b1\x7d."⟩

/-- The start of an expression was expected. -/
def atomExpected : Entry :=
  ⟨1002, .error, "Expected an identifier or a literal but found \x7b0\x7d."⟩

/-- A name was expected where a literal stands. -/
def nameExpected : Entry :=
  ⟨1003, .error, "Expected an identifier but found the literal '\x7b0\x7d'."⟩

/-- A number has no finite value. -/
def numberOutOfRange : Entry :=
  ⟨1004, .error, "Numeric literal '\x7b0\x7d' does not fit in a 64-bit float."⟩

/-- A visible name is declared again. -/
def redeclared : Entry :=
  ⟨2001, .error, "Cannot redeclare symbol '\x7b0\x7d'."⟩

/-- A name is used that is not visible. -/
def undeclared : Entry :=
  ⟨2002, .error, "Cannot reference '\x7b0\x7d' before declaration."⟩

/-- A name is used as a type that is not visible. -/
def undeclaredType : Entry :=
  ⟨2003, .error, "Cannot reference type '\x7b0\x7d' before declaration."⟩

/-- All messages, in the order of their codes. -/
def catalogue : List Entry :=
  [tokenExpected, atomExpected, nameExpected, numberOutOfRange, redeclared, undeclared,
    undeclaredType]

/-- The message with the given code. -/
def ofCode? (code : Nat) : Option Entry :=
  catalogue.find? fun entry => entry.code == code

end Entry

end Diagnostic

/-- A message about a source text. -/
structure Diagnostic where
  file : Option String
  span : Option Span
  message : String
  code : Nat
  category : Diagnostic.Category
  deriving DecidableEq

namespace Diagnostic

/-- The diagnostic that a catalogued message makes of its arguments. -/
def ofEntry (entry : Entry) (arguments : List String) : Diagnostic :=
  ⟨none, none, Text.fill entry.template arguments, entry.code, entry.category⟩

/-- A diagnostic that applies to a span. -/
def ofEntryAt (span : Span) (entry : Entry) (arguments : List String) : Diagnostic :=
  { ofEntry entry arguments with span := some span }

/-- The diagnostic with the file it belongs to. -/
def inFile (diagnostic : Diagnostic) (file : String) : Diagnostic :=
  { diagnostic with file := some file }

/-- Whether a diagnostic is an error. -/
def isError (diagnostic : Diagnostic) : Bool :=
  diagnostic.category == .error

/-- The label of the code of a diagnostic. -/
def label (diagnostic : Diagnostic) : String :=
  "QL" ++ toString diagnostic.code

/-- A diagnostic without its place. -/
def summary (diagnostic : Diagnostic) : String :=
  diagnostic.category.describe ++ " " ++ diagnostic.label ++ ": " ++ diagnostic.message

/-- A diagnostic on one line. -/
def display (diagnostic : Diagnostic) : String :=
  match diagnostic.file, diagnostic.span with
  | none, _ => diagnostic.summary
  | some file, none => file ++ ": " ++ diagnostic.summary
  | some file, some span => file ++ "(" ++ toString span.start ++ "): " ++ diagnostic.summary

end Diagnostic

end LetLang
