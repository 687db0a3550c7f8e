import LetLang.CommandLine.Arguments
import LetLang.ConfigFile
import LetLang.Diagnostic.Render
import LetLang.Program

/-! A run of the command line: the configuration and the files are read first, then the report
on them is made without looking at any file.
-/

namespace LetLang.CommandLine

/-- The name of the text given on the command line. -/
def inlineName : String := "<input>"

/-- The configuration file that is looked for when none is named. -/
def defaultConfig : String := "quill.json"

/-- The text that is parsed when there is no other. -/
def sample : String :=
  "let a = 1;\nlet c = 2;\ntype t = number;\nlet b: t = c = false;\n"

/-- The texts to parse, and the options for the report on them. -/
structure Job where
  program : Program
  options : Options
  verbose : Bool
  deriving DecidableEq

/-- The configuration of a run, with the path it was read from. -/
def findConfig {m : Type → Type} [Monad m] (files : Files.Access m) (named : Option String)
    : m (Except Failure (Option (String × Config))) := do
  let path? ←
    match named with
    | some path => pure (some path)
    | none => do
        if ← files.isPresent defaultConfig then pure (some defaultConfig) else pure none
  match path? with
  | none => return .ok none
  | some path =>
      match ← Config.load files path with
      | .ok config => return .ok (some (path, config))
      | .error failure => return .error failure

/-- The options that the arguments set. -/
def Arguments.options (arguments : Arguments) : Options :=
  ⟨if arguments.noColor then some false else none, arguments.maxErrors, arguments.emit⟩

/-- The options of a run: those of the configuration, overruled by the arguments. -/
def effectiveOptions (arguments : Arguments) (config : Option (String × Config)) : Options :=
  ((config.bind fun found => found.2.options).getD .unset).merge arguments.options

/-- The files of a run: those named as arguments, or else those of the configuration, given
relative to the directory of the configuration.
-/
def selectedFiles (arguments : Arguments) (config : Option (String × Config)) : List String :=
  if arguments.files.isEmpty then
    match config with
    | none => []
    | some (path, config) => (config.files.getD []).map (Path.join (Path.parent path))
  else
    arguments.files

/-- The program that holds the text given as an argument. -/
def inlineProgram (arguments : Arguments) : Program :=
  match arguments.source with
  | none => .empty
  | some text => Program.empty.add inlineName text

/-- The program, with the sample in it if it holds nothing. -/
def orSample (program : Program) : Program :=
  if program.sources.isEmpty then program.add inlineName sample else program

/-- Reads the configuration and all files. -/
def load {m : Type → Type} [Monad m] (files : Files.Access m) (arguments : Arguments)
    : m (Except Failure Job) := do
  match ← findConfig files arguments.config with
  | .error failure => return .error failure
  | .ok config =>
      match ← (inlineProgram arguments).loadAll files (selectedFiles arguments config) with
      | .error failure => return .error failure
      | .ok program =>
          return .ok ⟨orSample program, effectiveOptions arguments config, arguments.verbose⟩

/-- What a run puts out, and how it ends. -/
structure Report where
  exit : Nat
  output : String
  errorOutput : String
  failure : Option Failure
  deriving DecidableEq

/-- The report of a run that fails before it has put anything out. -/
def Report.ofFailure (failure : Failure) : Report :=
  ⟨1, "", "", some failure⟩

/-- The ending of a noun after a count. -/
def plural (count : Nat) : String :=
  if count = 1 then "" else "s"

/-- A count of something. -/
def counted (count : Nat) (noun : String) : String :=
  toString count ++ " " ++ noun ++ plural count

/-- A note, dimmed. -/
def note (color : Bool) (text : String) : String :=
  let palette := Diagnostic.Palette.of color
  palette.gray ++ text ++ palette.reset ++ "\n"

/-- The note on a parsed text that took the given time. -/
def fileNote (color : Bool) (file : ParsedFile) (elapsed : String) : String :=
  note color (file.name ++ ": " ++ counted file.session.tree.statements.length "statement"
    ++ ", " ++ counted (Diagnostic.errorCount file.session.diagnostics) "error"
    ++ " in " ++ elapsed ++ "ms")

/-- The notes on all parsed texts, with the time each one took. -/
def fileNotes (color : Bool) (files : List ParsedFile) (times : List String) : String :=
  String.join ((files.zip times).map fun (file, elapsed) => fileNote color file elapsed)

/-- The note on the time that the whole run took. -/
def totalNote (color : Bool) (elapsed : String) : String :=
  note color ("Parsed in " ++ elapsed ++ "s.")

/-- A diagnostic shown against the first text that goes by the name of its file. -/
def showDiagnostic (program : Program) (color : Bool) (diagnostic : Diagnostic)
    : Except Fault String :=
  match diagnostic.file.bind program.source? with
  | some source => Diagnostic.render (.ofText source.text) color diagnostic
  | none => .ok (diagnostic.display ++ "\n")

/-- The text with a line break at its end. -/
def closed (text : String) : String :=
  if text.toList.getLast? = some '\n' then text else text ++ "\n"

/-- Adds what is put out for each file to `output`, up to the first failure. With `headed`, the
name of the file comes before it.
-/
def emitFrom (mode : EmitMode) (headed : Bool) (output : String)
    : List ParsedFile → String × Option Failure
  | [] => (output, none)
  | file :: rest =>
      match file.session.tree.emit mode with
      | .error failure => (output, some failure)
      | .ok none => emitFrom mode headed output rest
      | .ok (some text) =>
          let header := if headed then "// " ++ file.name ++ "\n" else ""
          emitFrom mode headed (output ++ header ++ closed text) rest

/-- The last line of a run that found errors. -/
def countLine (color : Bool) (count : Nat) : String :=
  let palette := Diagnostic.Palette.of color
  "\n" ++ palette.red ++ "Found " ++ counted count "error" ++ "." ++ palette.reset ++ "\n"

/-- The times that a run took, as they are shown: for each text, and in all. -/
structure Times where
  files : List String
  total : String
  deriving DecidableEq

/-- A number written with `places` decimals, given by how many units of the last place it
has.
-/
def fixed (places units : Nat) : String :=
  let digits := Nat.toDigits 10 (units % Nat.pow 10 places)
  toString (units / Nat.pow 10 places) ++ "."
    ++ String.ofList (List.replicate (places - digits.length) '0' ++ digits)

/-- Nanoseconds shown as milliseconds. -/
def milliseconds (nanoseconds : Nat) : String :=
  fixed 3 ((nanoseconds + 500) / 1000)

/-- Nanoseconds shown as seconds. -/
def seconds (nanoseconds : Nat) : String :=
  fixed 2 ((nanoseconds + 5000000) / 10000000)

/-- The diagnostics that are shown. -/
def shownDiagnostics (options : Options) (diagnostics : List Diagnostic) : List Diagnostic :=
  match options.maxErrors with
  | none => diagnostics
  | some limit => diagnostics.take limit.toNat

/-- The report on parsed texts. -/
def report (job : Job) (terminal : Bool) (result : ProgramResult) (times : Times)
    : Except Fault Report := do
  let color := job.options.isPretty && terminal
  let notes := if job.verbose then fileNotes color result.files times.files else ""
  let shown ← (shownDiagnostics job.options result.diagnostics).mapM
    (showDiagnostic job.program color)
  -- All of this is shown before any tree is put out, so it stands even if that fails.
  let before := notes ++ String.join shown
  let (output, failure) :=
    emitFrom job.options.emitMode (decide (1 < result.files.length)) "" result.files
  match failure with
  | some failure => return ⟨1, output, before, some failure⟩
  | none =>
      let last := if job.verbose then totalNote color times.total else ""
      let count := Diagnostic.errorCount result.diagnostics
      if Diagnostic.hasErrors result.diagnostics then
        return ⟨2, output, before ++ last ++ countLine color count, none⟩
      else
        return ⟨0, output, before ++ last, none⟩

/-- Carries out a run: reads what the arguments ask for, has it parsed by `parse`, which also takes
the time, and makes the report for a terminal or for something else.
-/
def run {m : Type → Type} [Monad m] (files : Files.Access m) (terminal : m Bool)
    (parse : Program → m (Except Fault (ProgramResult × Times))) (arguments : Arguments)
    : m (Except Fault Report) := do
  match ← load files arguments with
  | .error failure => return .ok (.ofFailure failure)
  | .ok job =>
      match ← parse job.program with
      | .error fault => return .error fault
      | .ok (result, times) => return report job (← terminal) result times

end LetLang.CommandLine
