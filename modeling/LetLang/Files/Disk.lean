import LetLang.Files.Access
import LetLang.Path

/-! Files held in memory. Directories are there because something in them is, or because they
have been made; `.` and `..` are resolved along the way, so each piece before them has to be
there.
-/

namespace LetLang.Files

/-- Something on a disk. -/
inductive Entry where
  | directory
  | file (contents : ByteArray)

/-- Entries by the names that lead to them from the root. -/
structure Disk where
  entries : List (List String × Entry)

namespace Disk

/-- The entry at the end of a list of names. The root and whatever holds an entry are
directories.
-/
def entry? (disk : Disk) (names : List String) : Option Entry :=
  match disk.entries.find? fun found => found.1 == names with
  | some found => some found.2
  | none =>
      if names.isEmpty ∨ disk.entries.any fun found => names.isPrefixOf found.1 then
        some .directory
      else
        none

/-- Follows the pieces of a path from the entry that `names` lead to. -/
def follow (disk : Disk) (names : List String) (entry : Entry)
    : List String → Except ReadFailure Entry
  | [] => .ok entry
  | piece :: rest =>
      match entry with
      | .file _ => .error .notDirectory
      | .directory =>
          if piece = "" ∨ piece = "." then
            disk.follow names entry rest
          else if piece = ".." then
            disk.follow names.dropLast .directory rest
          else
            match disk.entry? (names ++ [piece]) with
            | some found => disk.follow (names ++ [piece]) found rest
            | none => .error .notFound

/-- The entry that a path leads to from the working directory. -/
def find (disk : Disk) (working : List String) (path : String) : Except ReadFailure Entry :=
  if path.isEmpty then
    .error .notFound
  else
    disk.follow (if Path.isAbsolute path then [] else working) .directory (Path.pieces path)

/-- The text of the file that a path leads to. -/
def read (disk : Disk) (working : List String) (path : String) : Except ReadFailure String :=
  match disk.find working path with
  | .error failure => .error failure
  | .ok .directory => .error .isDirectory
  | .ok (.file contents) =>
      match String.fromUTF8? contents with
      | some text => .ok text
      | none => .error .notText

/-- Looking at the files of a disk from a working directory. -/
def access (disk : Disk) (working : List String) : Access Id :=
  ⟨disk.read working, fun path => (disk.find working path).isOk⟩

end Disk

end LetLang.Files
