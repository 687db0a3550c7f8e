import LetLang.Diagnostic.Collection
import LetLang.Files.Access
import LetLang.Parse.Session

/-! Programs of several texts. Each text is parsed on its own and sees no name of another one;
their diagnostics are brought together in order.
-/

namespace LetLang

/-- A text and the name it goes by. -/
structure Source where
  name : String
  text : String
  deriving DecidableEq

/-- The texts of a program, in the order they were added. -/
structure Program where
  sources : List Source
  deriving DecidableEq

/-- A parsed text. -/
structure ParsedFile where
  name : String
  session : Session

namespace Program

/-- No texts. -/
def empty : Program :=
  ⟨[]⟩

/-- Adds a text. -/
def add (program : Program) (name text : String) : Program :=
  ⟨program.sources ++ [⟨name, text⟩]⟩

/-- Adds what was found at a path, under the path as its name. -/
def addFile (program : Program) (path : String)
    : Except ReadFailure String → Except Failure Program
  | .ok text => .ok (program.add path text)
  | .error cause => .error (.unreadable path cause)

/-- Reads a file and adds it. -/
def load {m : Type → Type} [Monad m] (files : Files.Access m) (program : Program) (path : String)
    : m (Except Failure Program) :=
  return program.addFile path (← files.read path)

/-- Reads files one after the other and adds them, up to the first that cannot be read. -/
def loadAll {m : Type → Type} [Monad m] (files : Files.Access m) (program : Program)
    : List String → m (Except Failure Program)
  | [] => return .ok program
  | path :: rest => do
      match ← program.load files path with
      | .ok program => program.loadAll files rest
      | .error failure => return .error failure

/-- The first text that goes by a name. -/
def source? (program : Program) (name : String) : Option Source :=
  program.sources.find? fun source => source.name == name

end Program

/-- Parses a text under its name. -/
def Source.parse (source : Source) : Except Fault ParsedFile :=
  return ⟨source.name, ← LetLang.parse (some source.name) source.text⟩

/-- The parsed texts of a program, in the order of the texts. -/
structure ProgramResult where
  files : List ParsedFile

namespace ProgramResult

/-- The diagnostics of all texts, in order. -/
def diagnostics (result : ProgramResult) : List Diagnostic :=
  Diagnostic.sort (result.files.flatMap fun file => file.session.diagnostics)

/-- The first parsed text that goes by a name. -/
def file? (result : ProgramResult) (name : String) : Option ParsedFile :=
  result.files.find? fun file => file.name == name

end ProgramResult

/-- Parses all texts of a program. -/
def Program.parse (program : Program) : Except Fault ProgramResult :=
  return ⟨← program.sources.mapM Source.parse⟩

end LetLang
