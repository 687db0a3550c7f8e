import LetLang.Failure
import LetLang.Json.Writer
import LetLang.Print

/-! Output of syntax trees, as source text or as JSON. -/

namespace LetLang

/-- What is put out for a module. -/
inductive EmitMode where
  | nothing
  | json
  | source
  deriving DecidableEq

namespace EmitMode

/-- The name of a mode. -/
def name : EmitMode → String
  | nothing => "none"
  | json => "json"
  | source => "source"

/-- The mode with the given name. -/
def ofName? (name : String) : Option EmitMode :=
  [nothing, json, source].find? fun mode => mode.name == name

/-- The message about a name that no mode has. -/
def unknownMessage (name : String) : String :=
  "unknown emit mode '" ++ name ++ "' (expected none, json or source)"

end EmitMode

namespace Emit

/-- The JSON form of a location. -/
def location (location : Location) : Json :=
  .record [("pos", .natural location)]

/-- The JSON form of a name. -/
def identifier (name : Identifier) : Json :=
  .record [("location", location name.location), ("text", .text name.text)]

/-- The JSON form of an atom. -/
def atom : Atom → Json
  | .identifier name =>
      .record [("kind", .text "Identifier"), ("location", location name.location),
        ("text", .text name.text)]
  | .number place value =>
      .record [("kind", .text "NumericLiteral"), ("location", location place),
        ("value", Json.optional .number value.jsonText?)]
  | .boolean place value =>
      .record [("kind", .text "BooleanLiteral"), ("location", location place),
        ("value", .bool value)]

/-- The JSON form of an expression. -/
def expression : Expr → Json
  | .atom leaf => atom leaf
  | .assignment link value =>
      .record [("kind", .text "Assignment"), ("location", location link.location),
        ("target", identifier link.target), ("value", expression value)]

/-- The JSON form of a declaration. -/
def declaration : Declaration → Json
  | .binding place name ascription initializer =>
      .record [("kind", .text "Let"), ("location", location place), ("name", identifier name),
        ("type_annotation", Json.optional identifier ascription),
        ("initializer", expression initializer)]
  | .typeAlias place name aliased =>
      .record [("kind", .text "TypeAlias"), ("location", location place),
        ("name", identifier name), ("aliased", identifier aliased)]

/-- The JSON form of a statement. -/
def statement : Statement → Json
  | .expression place value =>
      .record [("kind", .text "Expression"),
        ("node", .record [("location", location place), ("expression", expression value)])]
  | .declaration declared =>
      .record [("kind", .text "Declaration"), ("node", declaration declared)]

/-- The JSON form of a module. -/
def ofModule (tree : Module) : Json :=
  .record [("statements", .array (tree.statements.map statement))]

/-- The longest chain of assignments that has a JSON form. -/
def depthLimit : Nat := 256

end Emit

/-- The text to put out for a module, if any. -/
def Module.emit (tree : Module) : EmitMode → Except Failure (Option String)
  | .nothing => .ok none
  | .source => .ok (some (tree.print .default))
  | .json =>
      if Emit.depthLimit < tree.depth then
        .error (.tooDeep tree.depth Emit.depthLimit)
      else
        .ok (some ((Emit.ofModule tree).write .pretty))

end LetLang
