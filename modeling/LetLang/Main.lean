import LetLang.CommandLine.Run
import LetLang.CommandLine.Usage

/-! The program: looks at the arguments, reads the files that they ask for, and puts out the
report.
-/

namespace LetLang.Main

open LetLang.CommandLine

/-- What a failure to open a file comes to. -/
def openFailure : IO.Error → ReadFailure
  | .noFileOrDirectory .. => .notFound
  | .inappropriateType .. => .notDirectory
  | _ => .other

/-- What a failure to read an open file comes to. -/
def readFailure : IO.Error → ReadFailure
  | .inappropriateType .. => .isDirectory
  | _ => .other

/-- Reads a file as UTF-8. -/
def read (path : String) : IO (Except ReadFailure String) := do
  match ← (IO.FS.Handle.mk path .read).toBaseIO with
  | .error error => return .error (openFailure error)
  | .ok handle =>
      match ← handle.readBinToEnd.toBaseIO with
      | .error error => return .error (readFailure error)
      | .ok contents =>
          match String.fromUTF8? contents with
          | some text => return .ok text
          | none => return .error .notText

/-- Whether something can be opened, or is there and must not be. -/
def isPresent (path : String) : IO Bool := do
  match ← (IO.FS.Handle.mk path .read).toBaseIO with
  | .ok _ => return true
  | .error (.permissionDenied ..) => return true
  | .error _ => return false

/-- Looking at the files of the system. -/
def files : Files.Access IO :=
  ⟨read, isPresent⟩

/-- Whether diagnostics go to a terminal. -/
def isTerminal : IO Bool := do
  (← IO.getStderr).isTty

/-- Parses the texts of a program and takes the time of each, and of the whole run since
`start`.
-/
def parseTimed (start : Nat) (program : Program)
    : IO (Except Fault (ProgramResult × Times)) := do
  let mut parsed := #[]
  let mut times := #[]
  for source in program.sources do
    let before ← IO.monoNanosNow
    match source.parse with
    | .error fault => return .error fault
    | .ok file =>
        parsed := parsed.push file
        times := times.push (milliseconds ((← IO.monoNanosNow) - before))
  return .ok (⟨parsed.toList⟩, ⟨times.toList, seconds ((← IO.monoNanosNow) - start)⟩)

/-- Puts out a report and gives the exit code. -/
def put (report : Report) : IO UInt32 := do
  IO.eprint report.errorOutput
  IO.print report.output
  if let some failure := report.failure then
    IO.eprint failure.display
  return report.exit.toUInt32

/-- Ends a run that came to a fault. -/
def stop (fault : Fault) : IO UInt32 := do
  IO.eprintln fault.message
  return 101

/-- Carries out a run and puts out its report. -/
def run (arguments : Arguments) : IO UInt32 := do
  let start ← IO.monoNanosNow
  match ← CommandLine.run files isTerminal (parseTimed start) arguments with
  | .error fault => stop fault
  | .ok report => put report

end LetLang.Main

/-- Answers the request on the command line. -/
def main (arguments : List String) : IO UInt32 := do
  match LetLang.CommandLine.request arguments with
  | .run arguments => LetLang.Main.run arguments
  | .version => do IO.print LetLang.CommandLine.version; return 0
  | .help => do IO.print LetLang.CommandLine.help; return 0
  | .invalid => do IO.eprint LetLang.CommandLine.misuse; return 2
