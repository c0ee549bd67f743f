import BuildEngine.CommandLine.Grammar
import BuildEngine.Log
import BuildEngine.Path.Basic

/-!
# Arguments of the commands

What each command of the program is told.
-/

namespace BuildEngine

namespace CommandLine

/-- The names of the verbosities. -/
def verbosityNames : List (String × Verbosity) :=
  [("quiet", .quiet), ("minimal", .minimal), ("normal", .normal), ("detailed", .detailed)]

/-- The option that sets a property. -/
def propertyRule : OptionRule :=
  ⟨"property", some 'p', some .property, true, false⟩

/-- The option that leaves the project cache aside. -/
def noCacheRule : OptionRule :=
  ⟨"no-cache", none, none, false, false⟩

/-- The properties that arguments set. -/
def Arguments.properties (a : Arguments) : List (String × String) :=
  (a.all propertyRule.name).filterMap fun text => (readProperty text).toOption

end CommandLine

open CommandLine

/-- What to build. -/
structure BuildArguments where
  /-- The project files; without any, all of the current directory. -/
  projects : List Path
  /-- The targets; without any, the default targets of each project. -/
  targets : List String
  /-- Properties that every project sees. -/
  properties : List (String × String)
  /-- How many projects are built at once. -/
  maxParallelism : Option Nat
  /-- Whether the project cache is left aside. -/
  noCache : Bool
  /-- How much of the log is shown. -/
  verbosity : Verbosity
deriving DecidableEq, Repr

namespace BuildArguments

/-- The grammar of the arguments. -/
def grammar : Grammar :=
  { options :=
      [⟨"targets", some 't', some .text, true, true⟩, propertyRule,
        ⟨"max-parallelism", some 'm', some .count, false, false⟩, noCacheRule,
        ⟨"verbosity", some 'v', some (.choice (verbosityNames.map Prod.fst)), false, false⟩]
    values := some .path
    isOpenEnded := true }

/-- Reads the arguments. -/
def read (arguments : List String) : Except UsageError BuildArguments := do
  let a ← grammar.read arguments
  return {
    projects := a.values.map Path.mk
    targets := a.all "targets"
    properties := a.properties
    maxParallelism := (a.first? "max-parallelism").bind readCount?
    noCache := a.has noCacheRule.name
    verbosity := ((a.first? "verbosity").bind fun v => List.lookup v verbosityNames).getD .normal }

end BuildArguments

/-- Which graph to show. -/
structure GraphArguments where
  /-- The project files; without any, all of the current directory. -/
  projects : List Path
  /-- Properties that every project sees. -/
  properties : List (String × String)
  /-- Whether the project cache is left aside. -/
  noCache : Bool
  /-- Whether the graph is shown as JSON and not as a tree. -/
  asJson : Bool
deriving DecidableEq, Repr

namespace GraphArguments

/-- The grammar of the arguments. -/
def grammar : Grammar :=
  { options := [propertyRule, noCacheRule, ⟨"json", none, none, false, false⟩]
    values := some .path
    isOpenEnded := true }

/-- Reads the arguments. -/
def read (arguments : List String) : Except UsageError GraphArguments := do
  let a ← grammar.read arguments
  return {
    projects := a.values.map Path.mk
    properties := a.properties
    noCache := a.has noCacheRule.name
    asJson := a.has "json" }

end GraphArguments

/-- Which project's targets to list. -/
structure TargetsArguments where
  /-- The project file; without it, the only one of the current directory. -/
  project : Option Path
deriving DecidableEq, Repr

namespace TargetsArguments

/-- The grammar of the arguments. -/
def grammar : Grammar :=
  { options := [], values := some .path, isOpenEnded := false }

/-- Reads the arguments. -/
def read (arguments : List String) : Except UsageError TargetsArguments := do
  return ⟨(← grammar.read arguments).values.head?.map Path.mk⟩

end TargetsArguments

/-- What to do with the project cache. -/
inductive CacheAction where
  /-- Delete all cached projects. -/
  | clean
  /-- Show the directory. -/
  | path
deriving DecidableEq, Repr

namespace CacheAction

/-- The subcommands. -/
def subcommands : List String :=
  ["clean", "path", "help"]

/-- The grammar where no argument is known. -/
def nothing : Grammar :=
  { options := [], values := none, isOpenEnded := false }

/-- Reads what follows a subcommand, which is nothing. -/
def leaf (action : CacheAction) (rest : List String) : Except UsageError CacheAction := do
  let _ ← nothing.read rest
  return action

/-- What a question for help gets. -/
def helpAbout : List String → UsageError
  | [] => .help
  | [name] => if name ∈ subcommands then .help else .invalidSubcommand
  | _ => .invalidSubcommand

/-- Reads the arguments. -/
def read (arguments : List String) : Except UsageError CacheAction :=
  match arguments with
  | [] | ["--"] => .error .helpForMissing
  | "clean" :: rest => leaf .clean rest
  | "path" :: rest => leaf .path rest
  | "help" :: rest => .error (helpAbout rest)
  | "--" :: name :: _ =>
    .error (if name ∈ subcommands then .unknownArgument else .invalidSubcommand)
  | a :: _ =>
    match a.toList with
    | '-' :: _ :: _ => do
      let _ ← nothing.read [a]
      throw .helpForMissing
    | _ => .error .invalidSubcommand

end CacheAction

end BuildEngine
