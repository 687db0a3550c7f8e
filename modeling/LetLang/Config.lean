import LetLang.Emit
import LetLang.Json.Reader

/-! Options, and the configuration file that sets them. An option can be unset; a later setting
replaces an earlier one. In the file, a record is written as an object, or as the array of all
its fields in order.
-/

namespace LetLang

/-- The options of a run, each of which can be unset. -/
structure Options where
  /-- Colours in diagnostics. -/
  pretty : Option Bool
  /-- How many diagnostics are shown at most. -/
  maxErrors : Option UInt64
  emit : Option EmitMode
  deriving DecidableEq

namespace Options

/-- No option is set. -/
def unset : Options :=
  ⟨none, none, none⟩

/-- The options with those of `overlay` that are set put in their place. -/
def merge (options overlay : Options) : Options :=
  ⟨overlay.pretty <|> options.pretty, overlay.maxErrors <|> options.maxErrors,
    overlay.emit <|> options.emit⟩

/-- Colours are used unless they are switched off. -/
def isPretty (options : Options) : Bool :=
  options.pretty.getD true

/-- Nothing is put out unless a mode is set. -/
def emitMode (options : Options) : EmitMode :=
  options.emit.getD .nothing

end Options

/-- The contents of a configuration file. -/
structure Config where
  options : Option Options
  files : Option (List String)
  deriving DecidableEq

namespace Config

/-- The value of each of the named fields of a record; a missing field is `null`. No field may
occur twice, and each key must be a text. Other members are ignored.
-/
def fields? (names : List String) : Json → Option (List Json)
  | .array items => if items.length = names.length then some items else none
  | .object members =>
      if members.all fun member => member.1.isSome then
        names.mapM fun name =>
          match members.filter fun member => member.1 == some name with
          | [] => some .null
          | [(_, value)] => some value
          | _ => none
      else
        none
  | _ => none

/-- Reads a value that can be `null`. -/
def optional? {α : Type} (decode? : Json → Option α) : Json → Option (Option α)
  | .null => some none
  | value => (decode? value).map some

/-- Reads a boolean. -/
def bool? : Json → Option Bool
  | .bool value => some value
  | _ => none

/-- Reads a natural of 64 bits, written with digits only. -/
def natural? : Json → Option UInt64
  | .number literal =>
      if literal.toList.all Char.isDigit
          ∧ Nat.ofDigitChars 10 literal.toList 0 < UInt64.size then
        some (UInt64.ofNat (Nat.ofDigitChars 10 literal.toList 0))
      else
        none
  | _ => none

/-- Reads a text. -/
def text? : Json → Option String
  | .string text => text
  | _ => none

/-- Reads an output mode: its name, or an object with its name as the only key and no value. -/
def emitMode? : Json → Option EmitMode
  | .string (some name) => EmitMode.ofName? name
  | .object [(some name, .null)] => EmitMode.ofName? name
  | _ => none

/-- Reads a list of texts. -/
def texts? : Json → Option (List String)
  | .array items => items.mapM text?
  | _ => none

/-- Reads options. -/
def options? (value : Json) : Option Options :=
  match fields? ["pretty", "maxErrors", "emitAst"] value with
  | some [pretty, maxErrors, emit] =>
      return ⟨← optional? bool? pretty, ← optional? natural? maxErrors,
        ← optional? emitMode? emit⟩
  | _ => none

/-- Reads a configuration. -/
def ofJson? (value : Json) : Option Config :=
  match fields? ["compilerOptions", "files"] value with
  | some [options, files] => return ⟨← optional? options? options, ← optional? texts? files⟩
  | _ => none

/-- The configuration that a text holds. -/
def parse? (text : String) : Option Config :=
  (Json.read? text).bind ofJson?

/-- The JSON form of options. -/
def ofOptions (options : Options) : Json :=
  .record [("pretty", Json.optional .bool options.pretty),
    ("maxErrors", Json.optional (fun limit => .natural limit.toNat) options.maxErrors),
    ("emitAst", Json.optional (fun mode => .text mode.name) options.emit)]

/-- The JSON form of a configuration. -/
def toJson (config : Config) : Json :=
  .record [("compilerOptions", Json.optional ofOptions config.options),
    ("files", Json.optional (fun files => .array (files.map .text)) config.files)]

end Config

end LetLang
