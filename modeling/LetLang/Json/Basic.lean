/-! JSON values. Members of an object keep their order and may repeat a key. A number is kept
as it is written. A string can spell half of a surrogate pair, and then stands for no text.
-/

namespace LetLang

/-- A JSON value. -/
inductive Json where
  | null
  | bool (value : Bool)
  | number (literal : String)
  | string (text : Option String)
  | array (items : List Json)
  | object (members : List (Option String × Json))

namespace Json

/-- The string that stands for a text. -/
def text (text : String) : Json :=
  .string (some text)

/-- The object with the given members. -/
def record (members : List (String × Json)) : Json :=
  .object (members.map fun (key, value) => (some key, value))

/-- The integer literal of a natural. -/
def natural (value : Nat) : Json :=
  .number (toString value)

/-- The value of an option, or `null`. -/
def optional {α : Type} (encode : α → Json) : Option α → Json
  | none => .null
  | some value => encode value

end Json

end LetLang
