/-! Paths as texts. Nothing is simplified: a path is joined and cut as it is written. -/

namespace LetLang.Path

/-- Splits a text at each slash. -/
def pieces (path : String) : List String :=
  (path.toList.splitOn '/').map String.ofList

/-- Whether a path starts at the root. -/
def isAbsolute (path : String) : Bool :=
  path.toList.head? == some '/'

/-- The path of something given relative to a directory. -/
def join (directory path : String) : String :=
  if isAbsolute path then path
  else if directory.toList.getLast?.all (· == '/') then directory ++ path
  else directory ++ "/" ++ path

/-- Drops what names no entry of a directory from the end of reversed pieces: empty pieces and
single dots, but for a dot that a path starts with.
-/
def dropIdle : List String → List String
  | [] => []
  | [piece] => [piece]
  | piece :: outer => if piece = "" ∨ piece = "." then dropIdle outer else piece :: outer

/-- The directory part of a path: all but its last piece. -/
def parent (path : String) : String :=
  match dropIdle (pieces path).reverse with
  | [] => ""
  | [_] => ""
  | _ :: outer =>
      match dropIdle outer with
      | [""] => "/"
      | kept => String.intercalate "/" kept.reverse

end LetLang.Path
