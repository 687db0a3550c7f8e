/-! The kinds of tokens. Both boolean literals have one kind; their value is read off the text
of the token.
-/

namespace LetLang.Token

/-- The kind of a token. -/
inductive Kind where
  | functionKeyword
  | letKeyword
  | typeKeyword
  | returnKeyword
  | equals
  | semicolon
  | colon
  | number
  | boolean
  | identifier
  | endOfFile
  | unknown
  deriving DecidableEq

namespace Kind

/-- The place of a kind in the list of kinds. -/
def ordinal : Kind → Nat
  | functionKeyword => 0
  | letKeyword => 1
  | typeKeyword => 2
  | returnKeyword => 3
  | equals => 4
  | semicolon => 5
  | colon => 6
  | number => 7
  | boolean => 8
  | identifier => 9
  | endOfFile => 10
  | unknown => 11

/-- The word of a keyword. -/
def keyword? : Kind → Option String
  | functionKeyword => some "function"
  | letKeyword => some "let"
  | typeKeyword => some "type"
  | returnKeyword => some "return"
  | _ => none

/-- Whether a kind is that of a keyword. -/
def isKeyword (kind : Kind) : Bool :=
  kind.keyword?.isSome

/-- The sign of a punctuation mark. -/
def punctuation? : Kind → Option String
  | equals => some "="
  | semicolon => some ";"
  | colon => some ":"
  | _ => none

/-- The kind of a reserved word. Any other word is an identifier. -/
def ofWord? (word : String) : Option Kind :=
  if word = "function" then some functionKeyword
  else if word = "let" then some letKeyword
  else if word = "type" then some typeKeyword
  else if word = "return" then some returnKeyword
  else if word = "true" ∨ word = "false" then some boolean
  else none

/-- How messages call a kind of token. -/
def describe (kind : Kind) : String :=
  match kind.keyword? <|> kind.punctuation? with
  | some text => "'" ++ text ++ "'"
  | none =>
      match kind with
      | number => "number"
      | boolean => "boolean"
      | identifier => "identifier"
      | endOfFile => "end of file"
      | _ => "unknown token"

end Kind

end LetLang.Token
