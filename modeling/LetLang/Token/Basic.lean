import LetLang.Text.Span
import LetLang.Token.Kind

/-! Tokens of the source text. -/

namespace LetLang

/-- A token with the stretch of source it was read from. -/
structure Token where
  kind : Token.Kind
  span : Span
  text : String
  deriving DecidableEq

namespace Token

/-- Where a token starts. -/
def start (token : Token) : Location :=
  token.span.start

/-- The location right after a token. -/
def stop (token : Token) : Location :=
  token.span.start + token.span.length

/-- The token that ends every source text. -/
def endOfFile (location : Location) : Token :=
  ⟨.endOfFile, Span.empty location, ""⟩

/-- How messages call a token of the given kind and text. -/
def describe (kind : Kind) (text : String) : String :=
  match kind with
  | .identifier | .number | .boolean => kind.describe ++ " '" ++ text ++ "'"
  | .unknown => "'" ++ text ++ "'"
  | _ => kind.describe

end Token

end LetLang
