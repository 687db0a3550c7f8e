import LetLang.Config

/-! The arguments of a command line. Options and the source text come in any order; after a
double dash nothing is an option any more. The first thing that is wrong decides, unless the
version or the help is asked for before it.
-/

namespace LetLang.CommandLine

/-- What the arguments of a run say. -/
structure Arguments where
  source : Option String
  files : List String
  config : Option String
  emit : Option EmitMode
  maxErrors : Option UInt64
  noColor : Bool
  verbose : Bool
  deriving DecidableEq

/-- Nothing is said. -/
def Arguments.empty : Arguments :=
  ⟨none, [], none, none, none, false, false⟩

/-- What is asked for on the command line. -/
inductive Request where
  | run (arguments : Arguments)
  | version
  | help
  /-- The arguments cannot be understood. -/
  | invalid
  deriving DecidableEq

/-- Options that take a value. -/
inductive Setting where
  | file
  | config
  | emit
  | maxErrors
  deriving DecidableEq

/-- Options without a value. -/
inductive Flag where
  | noColor
  | verbose
  | help
  | version
  deriving DecidableEq

/-- The option with a long name. -/
def long? (name : String) : Option (Setting ⊕ Flag) :=
  if name = "file" then some (.inl .file)
  else if name = "config" then some (.inl .config)
  else if name = "emit-ast" then some (.inl .emit)
  else if name = "max-errors" then some (.inl .maxErrors)
  else if name = "no-color" then some (.inr .noColor)
  else if name = "verbose" then some (.inr .verbose)
  else if name = "help" then some (.inr .help)
  else if name = "version" then some (.inr .version)
  else none

/-- The option with a short name. -/
def short? (name : Char) : Option (Setting ⊕ Flag) :=
  if name = 'f' then some (.inl .file)
  else if name = 'p' then some (.inl .config)
  else if name = 'v' then some (.inr .verbose)
  else if name = 'h' then some (.inr .help)
  else if name = 'V' then some (.inr .version)
  else none

/-- The number that an argument stands for: digits, perhaps behind a plus sign, for a number of
64 bits.
-/
def limit? (text : String) : Option UInt64 :=
  let digits :=
    match text.toList with
    | '+' :: rest => rest
    | other => other
  if !digits.isEmpty && digits.all Char.isDigit
      && decide (Nat.ofDigitChars 10 digits 0 < UInt64.size) then
    some (UInt64.ofNat (Nat.ofDigitChars 10 digits 0))
  else
    none

namespace Arguments

/-- Gives an option its value. Only files can be given more than once. -/
def set (arguments : Arguments) (value : String) : Setting → Option Arguments
  | .file => some { arguments with files := arguments.files ++ [value] }
  | .config =>
      if arguments.config.isSome then none else some { arguments with config := some value }
  | .emit =>
      if arguments.emit.isSome then none
      else (EmitMode.ofName? value).map fun mode => { arguments with emit := some mode }
  | .maxErrors =>
      if arguments.maxErrors.isSome then none
      else (limit? value).map fun limit => { arguments with maxErrors := some limit }

/-- Adds an argument that is no option. -/
def setSource (arguments : Arguments) (value : String) : Option Arguments :=
  if arguments.source.isSome then none else some { arguments with source := some value }

/-- Sets a flag, which answers the request at once if the version or the help is asked for. -/
def raise (arguments : Arguments) : Flag → Except Request Arguments
  | .noColor =>
      if arguments.noColor then .error .invalid else .ok { arguments with noColor := true }
  | .verbose =>
      if arguments.verbose then .error .invalid else .ok { arguments with verbose := true }
  | .help => .error .help
  | .version => .error .version

end Arguments

/-- Whether an argument cannot be the value of the option before it. -/
def isOptionLike (argument : String) : Bool :=
  match argument.toList with
  | '-' :: _ :: _ => true
  | _ => false

/-- What a group of short options comes to. -/
inductive Group where
  /-- All options of the group are done. -/
  | done (arguments : Arguments)
  /-- The value of the last option is the next argument. -/
  | needsValue (arguments : Arguments) (setting : Setting)
  | ended (request : Request)
  deriving DecidableEq

/-- Reads a group of short options. The rest of a group behind an option that takes a value is
that value, without an equals sign in front of it.
-/
def group (arguments : Arguments) : List Char → Group
  | [] => .done arguments
  | name :: rest =>
      match short? name with
      | none => .ended .invalid
      | some (.inr flag) =>
          match arguments.raise flag with
          | .ok arguments => group arguments rest
          | .error request => .ended request
      | some (.inl setting) =>
          let withValue (value : List Char) :=
            match arguments.set (String.ofList value) setting with
            | some arguments => Group.done arguments
            | none => .ended .invalid
          match rest with
          | [] => .needsValue arguments setting
          | '=' :: value => withValue value
          | value => withValue value

/-- Reads arguments none of which is an option. -/
def plain (arguments : Arguments) : List String → Request
  | [] => .run arguments
  | argument :: rest =>
      match arguments.setSource argument with
      | some arguments => plain arguments rest
      | none => .invalid

/-- Splits a long option into its name and the value behind its equals sign. -/
def splitLong (text : List Char) : String × Option String :=
  match text.dropWhile (· ≠ '=') with
  | [] => (String.ofList text, none)
  | _ :: value => (String.ofList (text.takeWhile (· ≠ '=')), some (String.ofList value))

/-- Reads the remaining arguments. `awaiting` is the option whose value is due. -/
def requestFrom (arguments : Arguments) (awaiting : Option Setting) : List String → Request
  | [] => if awaiting.isSome then .invalid else .run arguments
  | argument :: rest =>
      match awaiting with
      | some setting =>
          if isOptionLike argument then
            .invalid
          else
            match arguments.set argument setting with
            | some arguments => requestFrom arguments none rest
            | none => .invalid
      | none =>
          match argument.toList with
          | ['-', '-'] => plain arguments rest
          | '-' :: '-' :: text =>
              match long? (splitLong text).1, (splitLong text).2 with
              | some (.inl setting), some value =>
                  match arguments.set value setting with
                  | some arguments => requestFrom arguments none rest
                  | none => .invalid
              | some (.inl setting), none => requestFrom arguments (some setting) rest
              | some (.inr flag), none =>
                  match arguments.raise flag with
                  | .ok arguments => requestFrom arguments none rest
                  | .error request => request
              | _, _ => .invalid
          | '-' :: name :: names =>
              match group arguments (name :: names) with
              | .done arguments => requestFrom arguments none rest
              | .needsValue arguments setting => requestFrom arguments (some setting) rest
              | .ended request => request
          | _ =>
              match arguments.setSource argument with
              | some arguments => requestFrom arguments none rest
              | none => .invalid

/-- What the arguments of a command line ask for. -/
def request (arguments : List String) : Request :=
  requestFrom .empty none arguments

end LetLang.CommandLine
