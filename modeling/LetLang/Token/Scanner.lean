import LetLang.Text.Bytes
import LetLang.Token.Basic

/-! Source text to tokens. Blanks separate tokens and are skipped; a token is a run of digits,
a word, a punctuation mark, or one character of no other use.
-/

namespace LetLang.Token

open LetLang.Text

/-- Blanks are the space, the tab, the line feed, the vertical tab, the form feed and the
carriage return.
-/
def isBlank (c : Char) : Bool :=
  c == ' ' || c == '\t' || c == '\n' || c == '\x0b' || c == '\x0c' || c == '\r'

/-- A word goes on with letters, digits and underscores. -/
def isWordPart (c : Char) : Bool :=
  c.isAlphanum || c == '_'

/-- The kind and the characters of the token that begins with `first`. -/
def lexeme (first : Char) (rest : List Char) : Kind × List Char :=
  if first.isDigit then
    (.number, first :: rest.takeWhile Char.isDigit)
  else if first.isAlpha then
    let word := first :: rest.takeWhile isWordPart
    ((Kind.ofWord? (String.ofList word)).getD .identifier, word)
  else if first = '=' then (.equals, [first])
  else if first = ';' then (.semicolon, [first])
  else if first = ':' then (.colon, [first])
  else (.unknown, [first])

/-- Reads the next token of `text`, which begins at `offset`. Gives the token and the text
after it.
-/
def scan (offset : Location) (text : List Char) : Token × List Char :=
  let start := offset + byteLength (text.takeWhile isBlank)
  match text.dropWhile isBlank with
  | [] => (endOfFile start, [])
  | first :: rest =>
      let (kind, characters) := lexeme first rest
      (⟨kind, ⟨start, byteLength characters⟩, String.ofList characters⟩,
        (first :: rest).drop characters.length)

theorem lexeme_ne_nil (first : Char) (rest : List Char) : (lexeme first rest).2 ≠ [] := by
  unfold lexeme
  (repeat' split) <;> simp

theorem lexeme_kind_ne_endOfFile (first : Char) (rest : List Char)
    : (lexeme first rest).1 ≠ .endOfFile := by
  unfold lexeme
  (repeat' split) <;> try simp
  unfold Kind.ofWord?
  (repeat' split) <;> simp

/-- A token other than the end of file is taken off the text. -/
theorem scan_rest_length_lt {offset : Location} {text : List Char}
    (h : (scan offset text).1.kind ≠ .endOfFile)
    : (scan offset text).2.length < text.length := by
  unfold scan at h ⊢
  have hd := (List.dropWhile_sublist isBlank (l := text)).length_le
  split
  · next hn => simp [hn, endOfFile] at h
  · next first rest hc =>
      have hp := List.length_pos_iff.mpr (lexeme_ne_nil first rest)
      rw [hc] at hd
      simp only [List.length_drop, List.length_cons] at hd ⊢
      omega

/-- Reads the remaining tokens. `done` holds those already read, last one first. -/
def scanAll (done : List Token) (offset : Location) (text : List Char) : List Token :=
  if (scan offset text).1.kind = .endOfFile then
    done.reverse
  else
    scanAll ((scan offset text).1 :: done) (scan offset text).1.stop (scan offset text).2
termination_by text.length
decreasing_by exact scan_rest_length_lt ‹_›

theorem scanAll_eq_append (done : List Token) (offset : Location) (text : List Char)
    : scanAll done offset text = done.reverse ++ scanAll [] offset text := by
  rw [scanAll, scanAll.eq_def [] offset text]
  split
  · simp
  · rw [scanAll_eq_append (_ :: done), scanAll_eq_append [_]]
    simp
termination_by text.length
decreasing_by all_goals exact scan_rest_length_lt ‹_›

/-- The tokens of a text, without the end of file. -/
def tokenize (text : List Char) : List Token :=
  scanAll [] 0 text

/-- A scanner on its way through a text: it holds the current token and the one before. -/
structure Scanner where
  /-- The bytes read so far, up to the end of the current token. -/
  offset : Location
  rest : List Char
  token : Token
  previous : Option Token
  started : Bool
  deriving DecidableEq

namespace Scanner

/-- A scanner in front of the first token. -/
def ofText (text : List Char) : Scanner :=
  ⟨0, text, ⟨.unknown, Span.empty 0, ""⟩, none, false⟩

/-- Whether the end of file has been reached. -/
def isAtEnd (scanner : Scanner) : Bool :=
  scanner.started && scanner.token.kind == .endOfFile

/-- Moves on to the next token. At the end of file nothing changes. -/
def advance (scanner : Scanner) : Scanner :=
  if scanner.isAtEnd then
    scanner
  else
    let (token, rest) := scan scanner.offset scanner.rest
    { offset := token.stop, rest, token,
      previous := if scanner.started then some scanner.token else scanner.previous,
      started := true }

end Scanner

end LetLang.Token
