/-! Failures outside the source text: a file that cannot be read, a configuration that cannot be
understood, a module that cannot be written. Each one ends a run.
-/

namespace LetLang

/-- Why a file cannot be read. -/
inductive ReadFailure where
  | notFound
  /-- A file stands where the path needs a directory. -/
  | notDirectory
  /-- A directory stands where a file was asked for. -/
  | isDirectory
  /-- The contents are not UTF-8. -/
  | notText
  /-- Any other reason, such as a missing permission. -/
  | other
  deriving DecidableEq

/-- A failure that ends a run. -/
inductive Failure where
  | unreadable (path : String) (cause : ReadFailure)
  | invalidConfig (path : String)
  | tooDeep (depth limit : Nat)
  deriving DecidableEq

namespace Failure

/-- The wording of a failure. -/
def message : Failure → String
  | unreadable path _ => "failed to read '" ++ path ++ "'"
  | invalidConfig path => "invalid configuration in '" ++ path ++ "'"
  | tooDeep depth limit =>
      "assignment chain of depth " ++ toString depth ++ " is too deep to emit as JSON (limit "
        ++ toString limit ++ ")"

/-- The code of a failure. -/
def code : Failure → String
  | unreadable .. => "quill::io"
  | invalidConfig _ => "quill::config"
  | tooDeep .. => "quill::emit"

/-- Advice on a failure. -/
def help? : Failure → Option String
  | unreadable .. => none
  | invalidConfig _ => some "quill.json holds `compilerOptions` and `files`"
  | tooDeep .. => some "use `--emit-ast source` for long chains"

/-- A failure as it is reported at the end of a run. -/
def display (failure : Failure) : String :=
  let advice :=
    match failure.help? with
    | none => ""
    | some help => "  help: " ++ help ++ "\n"
  "Error: " ++ failure.code ++ "\n\n  " ++ failure.message ++ "\n" ++ advice

end Failure

end LetLang
