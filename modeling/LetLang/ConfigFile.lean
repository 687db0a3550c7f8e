import LetLang.Config
import LetLang.Files.Access
import LetLang.Path

/-! Configuration files. The files that a configuration lists are given relative to the directory
it stands in.
-/

namespace LetLang.Config

/-- The configuration with its files given relative to where `path` is. -/
def relativeTo (path : String) (config : Config) : Config :=
  { config with files := config.files.map (·.map (Path.join (Path.parent path))) }

/-- Makes a configuration of the text found at `path`. -/
def ofFile (path : String) : Except ReadFailure String → Except Failure Config
  | .error cause => .error (.unreadable path cause)
  | .ok text =>
      match parse? text with
      | some config => .ok (config.relativeTo path)
      | none => .error (.invalidConfig path)

/-- Reads the configuration at `path`. -/
def load {m : Type → Type} [Monad m] (files : Files.Access m) (path : String)
    : m (Except Failure Config) :=
  return ofFile path (← files.read path)

end LetLang.Config
