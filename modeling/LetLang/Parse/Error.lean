import LetLang.Diagnostic.Basic
import LetLang.Token.Basic

/-! Errors in a source text. Each one ends the statement in which it occurs. -/

namespace LetLang

/-- What could have stood in the place of an unexpected token. -/
inductive Expected where
  /-- A token of one kind. -/
  | token (kind : Token.Kind)
  /-- The start of an expression. -/
  | identifierOrLiteral
  /-- A name, in place of a literal. -/
  | name
  deriving DecidableEq

/-- How messages call what was expected. -/
def Expected.describe : Expected → String
  | token kind => kind.describe
  | identifierOrLiteral => "an identifier or a literal"
  | name => "an identifier"

/-- An error in a source text. -/
inductive ParseError where
  | unexpectedToken (span : Span) (expected : Expected) (found : Token.Kind) (text : String)
  /-- A number without a finite value. -/
  | invalidNumber (span : Span) (text : String)
  /-- A name declared although it is visible. -/
  | redeclared (span : Span) (name : String)
  /-- A name used although it is not visible. -/
  | undeclared (span : Span) (name : String) (isType : Bool)
  deriving DecidableEq

namespace ParseError

/-- The span that an error applies to. -/
def span : ParseError → Span
  | unexpectedToken span _ _ _ => span
  | invalidNumber span _ => span
  | redeclared span _ => span
  | undeclared span _ _ => span

/-- The wording of an error inside a sentence. -/
def message : ParseError → String
  | unexpectedToken _ expected found text =>
      "expected " ++ expected.describe ++ " but found " ++ Token.describe found text
  | invalidNumber _ text => "numeric literal '" ++ text ++ "' does not fit in a 64-bit float"
  | redeclared _ name => "cannot redeclare symbol '" ++ name ++ "'"
  | undeclared _ name isType =>
      "cannot reference " ++ (if isType then "type " else "") ++ "'" ++ name
        ++ "' before declaration"

/-- The catalogued message of an error, with its arguments. -/
def entry : ParseError → Diagnostic.Entry × List String
  | unexpectedToken _ (.token kind) found text =>
      (.tokenExpected, [kind.describe, Token.describe found text])
  | unexpectedToken _ .identifierOrLiteral found text =>
      (.atomExpected, [Token.describe found text])
  | unexpectedToken _ .name _ text => (.nameExpected, [text])
  | invalidNumber _ text => (.numberOutOfRange, [text])
  | redeclared _ name => (.redeclared, [name])
  | undeclared _ name isType => (if isType then .undeclaredType else .undeclared, [name])

/-- The diagnostic of an error. -/
def diagnostic (error : ParseError) : Diagnostic :=
  Diagnostic.ofEntryAt error.span error.entry.1 error.entry.2

end ParseError

end LetLang
