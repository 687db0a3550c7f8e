import LetLang.Failure

/-! What a run needs of the files around it. The effects of looking at files are left open, so
that a run can be carried out on real files and on files held in memory.
-/

namespace LetLang.Files

/-- Looking at files by their paths. -/
structure Access (m : Type → Type) where
  /-- The text of a file. -/
  read : String → m (Except ReadFailure String)
  /-- Whether there is a file or a directory. -/
  isPresent : String → m Bool

end LetLang.Files
