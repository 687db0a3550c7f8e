/-! What the command line says about itself. -/

namespace LetLang.CommandLine

/-- The version of the program. -/
def version : String := "quill 0.1.0\n"

/-- How the program is called. -/
def usage : String := "Usage: quill [OPTIONS] [SOURCE]\n"

/-- What the program does, and what can be said to it. -/
def help : String :=
  "quill - parse and check quill programs\n\n" ++ usage ++ "\n"
    ++ "Arguments:\n"
    ++ "  [SOURCE]  Source text to parse\n\n"
    ++ "Options:\n"
    ++ "  -f, --file <PATH>      Source files to parse\n"
    ++ "  -p, --config <PATH>    Path to quill.json\n"
    ++ "      --emit-ast <MODE>  Print each syntax tree: none, json or source\n"
    ++ "      --max-errors <N>   Stop printing diagnostics after this many\n"
    ++ "      --no-color         Disable colored output\n"
    ++ "  -v, --verbose          Print per-file timing and statement counts\n"
    ++ "  -h, --help             Print help\n"
    ++ "  -V, --version          Print version\n"

/-- The answer to arguments that cannot be understood. -/
def misuse : String :=
  "error: the arguments cannot be understood\n\n" ++ usage
    ++ "\nFor more information, try '--help'.\n"

end LetLang.CommandLine
