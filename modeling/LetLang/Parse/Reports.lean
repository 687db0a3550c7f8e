import LetLang.Parse.Error

/-! The errors that a session reports, and their diagnostics. An attempt at a statement reports
the first of its errors only.
-/

namespace LetLang.Parse

/-- What has been reported so far, last report first. -/
structure Reports where
  /-- The file that the diagnostics belong to. -/
  file : Option String
  errors : List ParseError
  diagnostics : List Diagnostic
  /-- Whether the current attempt has reported an error. -/
  raised : Bool
  deriving DecidableEq

namespace Reports

/-- Nothing has been reported. -/
def empty (file : Option String) : Reports :=
  ⟨file, [], [], false⟩

/-- The diagnostic of an error, with the file it belongs to. -/
def diagnose (file : Option String) (error : ParseError) : Diagnostic :=
  match file with
  | none => error.diagnostic
  | some file => error.diagnostic.inFile file

/-- Reports an error, unless the current attempt has reported one already. -/
def add (reports : Reports) (error : ParseError) : Reports :=
  if reports.raised then
    reports
  else
    { reports with
      errors := error :: reports.errors
      diagnostics := diagnose reports.file error :: reports.diagnostics
      raised := true }

/-- The reports as the next attempt finds them. -/
def lower (reports : Reports) : Reports :=
  { reports with raised := false }

end Reports

end LetLang.Parse
