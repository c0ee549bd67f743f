import BuildEngine.CommandLine.Grammar
import BuildEngine.Settings

/-!
# Usage

What is told to somebody whose arguments make no sense, or who asks for help.
-/

namespace BuildEngine

namespace CommandLine

/-- How the program is used. -/
def usageLines : List String :=
  let name := UserFolder.programName
  ["Usage: " ++ name ++ " [COMMAND] [ARGUMENTS]", "", "Commands:",
    "  build, b     Builds projects and every project they reference; the usual command",
    "  graph, tree  Displays the project dependency graph",
    "  targets, ls  Lists the targets of a project",
    "  cache        Manages the project cache (clean, path)", "",
    "Arguments of build:",
    "  [PROJECTS]                 The project files; all of the current directory without any",
    "  -t, --targets <NAMES>      Targets, separated by commas or semicolons",
    "  -p, --property <NAME=VALUE>  Sets a global property",
    "  -m, --max-parallelism <N>  How many projects are built at once; 0 is one per processor",
    "      --no-cache             Leaves the project cache aside",
    "  -v, --verbosity <LEVEL>    quiet, minimal, normal or detailed"]

end CommandLine

namespace UsageError

/-- The message of a usage error; a question for help has none. -/
def message? : UsageError → Option String
  | unknownArgument => some "unexpected argument"
  | invalidValue => some "invalid or missing value"
  | valueValidation => some "value of the wrong form"
  | argumentConflict => some "argument given more than once"
  | tooManyValues => some "value for an argument that takes none"
  | invalidSubcommand => some "unrecognized subcommand"
  | help | helpForMissing => none

/-- What is told about a usage error. -/
def report (e : UsageError) : String :=
  String.join ((e.message?.toList.flatMap fun m => ["error: " ++ m, ""]) ++
    CommandLine.usageLines |>.map fun line => line ++ "\n")

end UsageError

end BuildEngine
