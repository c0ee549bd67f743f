import BuildEngine.Build.TaskError

/-!
# Running commands and compilers

A command runs in the directory of the project unless it is told another one. What it writes goes
to the log, and its exit code becomes an output. A compilation is set up from the parameters of its
task in a fixed order, so that of several faults the first is reported.
-/

namespace BuildEngine.Site

/-- The output that holds the exit code of the last command. -/
def exitCodeOutput : String := "ExitCode"

/-- The output that names the file of the last compilation. -/
def assemblyOutput : String := "OutputAssembly"

/-- The command line of a command task, and the directory that it runs in. -/
def commandOf (site : Site) (s : Session) (command : Expr) (directory : Option Expr) :
    Except EvalError (String × Path) := do
  let line ← command.evaluateText (site.context s)
  let folder ← site.textOf? s directory
  return (line, (folder.map site.fullPath).getD site.base)

/-- Notes what a command left, and fails if its exit code counts. -/
def conclude (site : Site) (s : Session) (line : String) (ignoreExitCode : Bool)
    (o : ProcessOutput) : TaskResult :=
  let s := site.say s .normal o.standard
  let s := site.say s .normal o.diagnostics
  let s := s.setOutput exitCodeOutput (toString o.exitCode)
  if o.isSuccess then (s, .ok ())
  else if ignoreExitCode then
    (site.say s .low ("Exit code " ++ toString o.exitCode ++ " ignored."), .ok ())
  else (s, .error (.exitCode line o.exitCode))

/-- Runs a command, and notes what it left. -/
def execute (site : Site) (s : Session) (command : Expr) (directory : Option Expr)
    (ignoreExitCode : Bool) : TaskResult :=
  withValue s (site.commandOf s command directory) fun (line, folder) =>
    let s := site.say s .normal line
    let (answer, workspace) := site.runner.runLine line folder s.workspace
    let s := { s with workspace }
    match answer with
    | .error e => (s, .error (.ofProcess e))
    | .ok o => site.conclude s line ignoreExitCode o

/-- The request of a compile task. -/
def requestOf (site : Site) (s : Session) (t : CompileTask) : Except TaskError CompileRequest := do
  let ctx := site.context s
  let paths (texts : List String) : List Path := texts.map site.fullPath
  let sources ← (t.sources.evaluateEntries ctx).mapError .evaluation
  if sources = [] then throw (.invalid .noSources)
  let output ← (t.outputAssembly.evaluateText ctx).mapError .evaluation
  if Text.trim output = "" then throw (.invalid .noOutput)
  -- The flags are looked at before the other lists, so a fault in them is reported first.
  let flags ← (site.textOf? s t.additionalFlags).mapError .evaluation
  let some words := Words.split (flags.getD "")
    | throw (.invalid (.unreadableFlags (flags.getD "")))
  let references ← (site.entriesOf s t.references).mapError .evaluation
  let resources ← (site.entriesOf s t.resources).mapError .evaluation
  let targetType ← (site.textOf? s t.targetType).mapError .evaluation
  let constants ← (site.entriesOf s t.defineConstants).mapError .evaluation
  return {
    sources := paths sources
    references := paths references
    resources := paths resources
    output := site.fullPath output
    targetType
    constants
    flags := words
    directory := site.base }

/-- Asks the compiler, and notes what it answers. -/
def compileRequest (site : Site) (s : Session) (r : CompileRequest) : TaskResult :=
  let s := site.say s .normal
    ("Compiling " ++ toString r.sources.length ++ " file(s) into '" ++ r.output.text ++ "'.")
  let (answer, workspace) := site.compiler.compile r s.workspace
  let s := { s with workspace }
  match answer with
  | .ok output => ((site.say s .normal output).setOutput assemblyOutput r.output.text, .ok ())
  | .error (.failed code output) =>
    (site.say s .high output, .error (.compiler (.failed code output)))
  | .error e => (s, .error (.ofCompile e))

/-- Compiles sources. -/
def compile (site : Site) (s : Session) (t : CompileTask) : TaskResult :=
  match site.requestOf s t with
  | .error e => (s, .error e)
  | .ok r => site.compileRequest s r

end BuildEngine.Site
