import LetLang.Json.Basic

/-! JSON values as text, on one line or indented. -/

namespace LetLang.Json

/-- How values are laid out. -/
structure Style where
  /-- What comes before each item at a depth, and before the end of its container. -/
  lineBreak : Nat → String
  /-- What comes between a key and its value. -/
  colon : String

/-- No blanks at all. -/
def Style.compact : Style :=
  ⟨fun _ => "", ":"⟩

/-- Each item on a line of its own, indented by two blanks for each container around it. -/
def Style.pretty : Style :=
  ⟨fun depth => String.ofList ('\n' :: List.replicate (2 * depth) ' '), ": "⟩

/-- A digit below sixteen. -/
def hexDigit (value : Nat) : Char :=
  Nat.digitChar value

/-- The written form of a character inside a string. -/
def escape (c : Char) : String :=
  if c = '"' then "\\\""
  else if c = '\\' then "\\\\"
  else if c = '\x08' then "\\b"
  else if c = '\t' then "\\t"
  else if c = '\n' then "\\n"
  else if c = '\x0c' then "\\f"
  else if c = '\r' then "\\r"
  else if c.toNat < 32 then
    "\\u00" ++ String.ofList [hexDigit (c.toNat / 16), hexDigit (c.toNat % 16)]
  else c.toString

/-- Adds the written forms of characters to `out`. -/
def escapeOnto (out : String) : List Char → String
  | [] => out
  | first :: rest => escapeOnto (out ++ escape first) rest

/-- Adds a string literal to `out`. A string that stands for no text is written as half of a
surrogate pair.
-/
def writeString (out : String) : Option String → String
  | some text => escapeOnto (out ++ "\"") text.toList ++ "\""
  | none => out ++ "\"\\ud800\""

/-- What comes before an item: a comma unless it is the first one, and a line break. -/
def separator (style : Style) (depth : Nat) (isFirst : Bool) : String :=
  (if isFirst then "" else ",") ++ style.lineBreak depth

mutual

/-- Adds a value inside `depth` containers to `out`. -/
def writeOnto (style : Style) (depth : Nat) (out : String) : Json → String
  | null => out ++ "null"
  | bool value => out ++ if value then "true" else "false"
  | number literal => out ++ literal
  | string text => writeString out text
  | array [] => out ++ "[]"
  | array (item :: items) =>
      writeItems style (depth + 1) true (out ++ "[") (item :: items)
        ++ style.lineBreak depth ++ "]"
  | object [] => out ++ "\x7b\x7d"
  | object (member :: members) =>
      writeMembers style (depth + 1) true (out ++ "\x7b") (member :: members)
        ++ style.lineBreak depth ++ "\x7d"

/-- Adds the items of an array to `out`. -/
def writeItems (style : Style) (depth : Nat) (isFirst : Bool) (out : String)
    : List Json → String
  | [] => out
  | item :: items =>
      writeItems style depth false
        (writeOnto style depth (out ++ separator style depth isFirst) item) items

/-- Adds the members of an object to `out`. -/
def writeMembers (style : Style) (depth : Nat) (isFirst : Bool) (out : String)
    : List (Option String × Json) → String
  | [] => out
  | (key, value) :: members =>
      writeMembers style depth false
        (writeOnto style depth
          (writeString (out ++ separator style depth isFirst) key ++ style.colon) value)
        members

end

/-- The text of a value. -/
def write (style : Style) (value : Json) : String :=
  writeOnto style 0 "" value

end LetLang.Json
