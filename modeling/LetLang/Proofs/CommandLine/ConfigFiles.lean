import LetLang.Files.Disk
import LetLang.Proofs.CommandLine.Loading

/-! Which files a configuration brings into a run. Its entries are taken relative to its directory
when it is read, and once more when the files of the run are selected. That makes no difference for
an absolute entry, or if the directory is the working directory or absolute.
-/

namespace LetLang

-----------------------------------------------------------------------------------------
-- Joining paths
-----------------------------------------------------------------------------------------

namespace Path

theorem join_of_isAbsolute {path : String} (absolute : isAbsolute path = true) (directory : String)
    : join directory path = path := by
  rw [join, if_pos absolute]

theorem join_empty (path : String) : join "" path = path := by
  unfold join
  split
  · rfl
  · simp

/-- A relative path is put behind the directory. -/
theorem exists_join_eq_append {path : String} (relative : isAbsolute path = false)
    (directory : String)
    : ∃ slash, join directory path = directory ++ slash ++ path := by
  unfold join
  rw [if_neg (by simp [relative])]
  split
  · exact ⟨"", by simp⟩
  · exact ⟨"/", rfl⟩

theorem isAbsolute_append {directory : String} (named : directory ≠ "") (rest : String)
    : isAbsolute (directory ++ rest) = isAbsolute directory := by
  have some : directory.toList ≠ [] := fun empty => named (String.toList_eq_nil_iff.mp empty)
  rw [isAbsolute, isAbsolute, String.toList_append, List.head?_append_of_ne_nil _ some]

theorem isAbsolute_join {directory : String} (absolute : isAbsolute directory = true)
    (path : String)
    : isAbsolute (join directory path) = true := by
  have named : directory ≠ "" := by
    rintro rfl
    cases absolute
  cases other : isAbsolute path with
  | true => rw [join_of_isAbsolute other, other]
  | false =>
      obtain ⟨slash, same⟩ := exists_join_eq_append other directory
      rw [same, String.append_assoc, isAbsolute_append named, absolute]

/-- Joining a directory twice is joining it once exactly if it has no name, or if it or the path
is absolute.
-/
theorem join_join_eq_iff (directory path : String)
    : join directory (join directory path) = join directory path
      ↔ directory = "" ∨ isAbsolute directory = true ∨ isAbsolute path = true := by
  constructor
  · intro same
    by_contra other
    simp only [not_or, Bool.not_eq_true] at other
    obtain ⟨named, relative, alsoRelative⟩ := other
    obtain ⟨slash, once⟩ := exists_join_eq_append alsoRelative directory
    have stays : isAbsolute (join directory path) = false := by
      rw [once, String.append_assoc, isAbsolute_append named, relative]
    obtain ⟨second, twice⟩ := exists_join_eq_append stays directory
    rw [twice] at same
    have lengths := congrArg String.length same
    have solid : directory.length ≠ 0 := by
      simpa [String.length_eq_zero_iff] using named
    simp only [String.length_append] at lengths
    omega
  · rintro (rfl | absolute | absolute)
    · rw [join_empty]
    · exact join_of_isAbsolute (isAbsolute_join absolute path) directory
    · rw [join_of_isAbsolute absolute, join_of_isAbsolute absolute]

end Path

-----------------------------------------------------------------------------------------
-- The paths that are read
-----------------------------------------------------------------------------------------

/-- Looking at files, with a record of the paths that were read. -/
def Files.Access.recorded (files : Files.Access Id) : Files.Access (StateM (List String)) where
  read path := do
    modify fun paths => paths ++ [path]
    return (files.read path).run
  isPresent path := return (files.isPresent path).run

/-- The paths that are read one after the other, up to the first that cannot be. -/
def Files.Access.upToFailure (files : Files.Access Id) : List String → List String
  | [] => []
  | path :: rest =>
      path :: if (files.read path).run.isOk then files.upToFailure rest else []

theorem Files.Access.read_recorded (files : Files.Access Id) (path : String)
    (before : List String)
    : ((files.recorded.read path).run before).run = ((files.read path).run, before ++ [path]) := rfl

theorem Program.loadAll_recorded (files : Files.Access Id) (program : Program)
    (paths before : List String)
    : ((program.loadAll files.recorded paths).run before).run
      = ((program.loadAll files paths).run, before ++ files.upToFailure paths) := by
  induction paths generalizing program before with
  | nil =>
      rw [Files.Access.upToFailure, List.append_nil]
      rfl
  | cons path rest ih =>
      simp only [Program.loadAll, Program.load, Files.Access.upToFailure, StateT.run_bind,
        Id.run_bind, Files.Access.read_recorded, bind_assoc, pure_bind]
      cases contents : (files.read path).run with
      | error cause => simp [Program.addFile, Except.isOk, Except.toBool]
      | ok text => simp [Program.addFile, Except.isOk, Except.toBool, ih]

namespace CommandLine

open LetLang.Files

/-- The paths that a run reads, in order. -/
def readPaths (files : Access Id) (terminal : Bool) (times : Times) (arguments : Arguments)
    : List String :=
  ((run files.recorded (pure terminal)
    (fun program => pure (program.parse.map fun result => (result, times))) arguments).run []).run.2

theorem run_recorded (files : Access Id) (terminal : Bool) (times : Times) (arguments : Arguments)
    : readPaths files terminal times arguments
      = ((load files.recorded arguments).run []).run.2 := by
  simp only [readPaths, run, StateT.run_bind, Id.run_bind]
  generalize ((load files.recorded arguments).run []).run = loaded
  obtain ⟨result, paths⟩ := loaded
  cases result with
  | error failure => rfl
  | ok job => cases parsed : job.program.parse <;> simp [parsed, Except.map]

/-- A run with a configuration reads that and then the files it selects. -/
theorem readPaths_of_configAt {files : Access Id} {arguments : Arguments} {path : String}
    {config : Config} (named : arguments.config = some path)
    (understood : configAt? files path = some config) (terminal : Bool) (times : Times)
    : readPaths files terminal times arguments
      = path
        :: files.upToFailure (selectedFiles arguments (some (path, config.relativeTo path))) := by
  have loaded : Config.ofFile path (files.read path).run = .ok (config.relativeTo path) := by
    unfold configAt? at understood
    cases contents : (files.read path).run with
    | error cause => simp [contents] at understood
    | ok text =>
        simp only [contents] at understood
        simp [Config.ofFile, understood]
  have found : ((findConfig files.recorded (some path)).run []).run
      = (.ok (some (path, config.relativeTo path)), [path]) := by
    simp [findConfig, Config.load, Access.read_recorded, loaded]
  rw [run_recorded, load, named]
  simp only [StateT.run_bind, Id.run_bind, found, Program.loadAll_recorded]
  cases ((inlineProgram arguments).loadAll files
    (selectedFiles arguments (some (path, config.relativeTo path)))).run <;> rfl

/-- With a configuration and no files on the command line, the entries of the configuration are
read in order, each joined twice to the directory of the configuration. These are the entries joined
to it once exactly if the directory has no name or is absolute, or all entries are absolute.
-/
theorem readPaths_of_config {files : Access Id} {arguments : Arguments} {path : String}
    {config : Config} (named : arguments.config = some path) (alone : arguments.files = [])
    (understood : configAt? files path = some config) (terminal : Bool) (times : Times)
    : let directory := Path.parent path
      let entries := config.files.getD []
      let paths := entries.map fun entry => Path.join directory (Path.join directory entry)
      readPaths files terminal times arguments = path :: files.upToFailure paths
      ∧ (paths = entries.map (Path.join directory)
        ↔ directory = ""
          ∨ Path.isAbsolute directory = true
          ∨ ∀ entry ∈ entries, Path.isAbsolute entry = true) := by
  intro directory entries paths
  constructor
  · have selected : selectedFiles arguments (some (path, config.relativeTo path)) = paths := by
      simp only [selectedFiles, alone, Config.relativeTo, paths, entries]
      cases config.files <;> simp [directory]
    rw [readPaths_of_configAt named understood, selected]
  · simp only [paths, List.map_inj_left, Path.join_join_eq_iff]
    grind

theorem readPaths_of_config_two
    : let disk : Disk :=
        ⟨[(["p", "quill.json"], .file "\x7b\"files\": [\"main.ql\", \"/t.ql\"]\x7d".toUTF8),
          (["p", "p", "main.ql"], .file "let a = 1;".toUTF8),
          (["t.ql"], .file "type t = number;".toUTF8)]⟩
      let files := disk.access []
      let arguments := { Arguments.empty with config := some "p/quill.json" }
      let directory := Path.parent "p/quill.json"
      let entries := ["main.ql", "/t.ql"]
      let paths := entries.map fun entry => Path.join directory (Path.join directory entry)
      configAt? files "p/quill.json" = some ⟨none, some entries⟩
      ∧ readPaths files true ⟨["0.001", "0.001"], "0.00"⟩ arguments
        = "p/quill.json" :: files.upToFailure paths
      ∧ (paths = entries.map (Path.join directory)
        ↔ directory = ""
          ∨ Path.isAbsolute directory = true
          ∨ ∀ entry ∈ entries, Path.isAbsolute entry = true) := by
  intro disk files arguments directory entries paths
  have understood : configAt? files "p/quill.json" = some ⟨none, some entries⟩ := by
    decide +kernel
  exact ⟨understood, readPaths_of_config rfl rfl understood true _⟩

/-- A file beside a configuration in a directory below the working one is not found. -/
theorem readPaths_doubles_directory
    : let disk : Disk :=
        ⟨[(["p", "quill.json"], .file "\x7b\"files\": [\"main.ql\"]\x7d".toUTF8),
          (["p", "main.ql"], .file "type t = number;".toUTF8)]⟩
      let files := disk.access []
      let arguments := { Arguments.empty with config := some "p/quill.json" }
      configAt? files "p/quill.json" = some ⟨none, some ["main.ql"]⟩
      ∧ Path.join (Path.parent "p/quill.json") "main.ql" = "p/main.ql"
      ∧ (files.read "p/main.ql").run.isOk = true
      ∧ readPaths files false ⟨[], "0.00"⟩ arguments = ["p/quill.json", "p/p/main.ql"]
      ∧ (files.read "p/p/main.ql").run.isOk = false := by
  decide +kernel

end CommandLine

end LetLang
