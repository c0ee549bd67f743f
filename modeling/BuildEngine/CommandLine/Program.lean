import BuildEngine.Build.Projects
import BuildEngine.CommandLine.Arguments
import BuildEngine.CommandLine.Failure
import BuildEngine.CommandLine.Report
import BuildEngine.Graph.Tree
import BuildEngine.Process.Host

/-!
# The program

What the program does with its arguments: the first one may name a command, and everything else is
built. A command works on a machine and writes to the two streams of a console; how it ended
decides the exit code.
-/

namespace BuildEngine

/-- What the program runs on. -/
structure Machine where
  /-- The files. -/
  disk : Disk
  /-- The cached projects by the directories of their caches. -/
  caches : List (Path × ProjectCache)
  /-- The variables of the process. -/
  vars : Variables
  /-- How many processors there are. -/
  processors : Nat
  /-- What runs commands. -/
  host : Host
deriving Repr

/-- What has been written. -/
structure Console where
  /-- The text on the standard output. -/
  standard : String
  /-- The text on the standard error. -/
  diagnostics : String
deriving DecidableEq, Repr

namespace Console

/-- Nothing has been written. -/
def empty : Console :=
  ⟨"", ""⟩

/-- Writes to the standard output. -/
def write (c : Console) (text : String) : Console :=
  { c with standard := c.standard ++ text }

/-- Writes lines to the standard output. -/
def writeLines (c : Console) (lines : List String) : Console :=
  c.write (String.join (lines.map fun line => line ++ "\n"))

/-- Writes to the standard error. -/
def complain (c : Console) (text : String) : Console :=
  { c with diagnostics := c.diagnostics ++ text }

/-- Writes the entries of a log. -/
def writeLog (c : Console) (showsLogger : Bool) (entries : List LogEntry) : Console :=
  entries.foldl
    (fun c e =>
      if Report.isMessage e then c.write (Report.entryText showsLogger e)
      else c.complain (Report.entryText showsLogger e)) c

end Console

/-- What a command has changed, and whether it failed. -/
abbrev CommandResult := Machine × Console × Except Failure Unit

/-- How the program ended. -/
inductive Outcome where
  /-- A command ran. -/
  | finished (console : Console) (exitCode : Nat)
  /-- The arguments make no sense, or ask for help. -/
  | usage (reason : UsageError)
deriving DecidableEq, Repr

/-- The project files that stand in a directory, in order. -/
def findProjects (disk : Disk) (folder : Path) : Except Failure (List Path) :=
  match disk.list folder with
  | .error e =>
    .error (.context ("Failed to list directory '" ++ folder.text ++ "'") (.other e.message))
  | .ok names =>
    let files := names.filter fun name =>
      (Project.stripSuffix? name).isSome && disk.isFile (folder.join ⟨name⟩)
    .ok ((files.map fun name => folder.join ⟨name⟩).mergeSort fun p q => p.order q ≠ .gt)

namespace Machine

/-- The cache of a directory. -/
def cacheAt (m : Machine) (folder : Path) : ProjectCache :=
  ((m.caches.find? fun c => c.1.same folder).map Prod.snd).getD .empty

/-- Puts a cache in place of the one of its directory. -/
def setCache (m : Machine) (folder : Path) (cache : ProjectCache) : Machine :=
  { m with caches := (folder, cache) :: m.caches.filter fun c => !c.1.same folder }

/-- Puts a cache in place if there is one. -/
def setCache? (m : Machine) (folder : Option Path) (cache : Option ProjectCache) : Machine :=
  match folder, cache with
  | some folder, some cache => m.setCache folder cache
  | _, _ => m

/-- Loads the settings of the user. -/
def loadSettings (m : Machine) : Except Failure (Settings × Machine) :=
  match UserFolder.loadSettings m.vars m.disk with
  | .error e => .error (.context "Failed to load keel settings" (.settings e))
  | .ok (s, disk) => .ok (s, { m with disk })

/-- The projects that are named, or else those of the current directory. -/
def entryProjects (m : Machine) (named : List Path) : Except Failure (List Path) :=
  if named ≠ [] then .ok named
  else
    match findProjects m.disk m.disk.current with
    | .error e => .error e
    | .ok [] =>
      .error (.other ("No project file given and no '*" ++ Project.fileSuffix ++
        "' file found in '" ++ m.disk.current.text ++ "'."))
    | .ok found => .ok found

/-- Finds the graph of projects, through the cache of a directory if there is one. -/
def discover (m : Machine) (s : Settings) (properties : List (String × String))
    (cacheFolder : Option Path) (entries : List Path) : Except Failure ProjectGraph × Machine :=
  let (result, cache) := Discovery.load ⟨.disk m.disk, s.globals properties⟩
    (cacheFolder.map m.cacheAt) entries
  (result.mapError .discovery, m.setCache? cacheFolder cache)

/-- Builds projects. -/
def build (m : Machine) (a : BuildArguments) : CommandResult :=
  match m.loadSettings with
  | .error e => (m, .empty, .error e)
  | .ok (s, m) =>
    match m.entryProjects a.projects with
    | .error e => (m, .empty, .error e)
    | .ok entries =>
      match m.discover s a.properties (s.cacheDirectory? m.vars a.noCache) entries with
      | (.error e, m) => (m, .empty, .error e)
      | (.ok graph, m) =>
        -- With more than one worker every line names its project.
        let workers := match a.maxParallelism with
          | some (n + 1) => n + 1
          | _ => s.parallelism m.processors
        let runner := Runner.ofHost m.host
        let shop : Workshop := ⟨.ofProgram runner s.compiler s.compilerFlags, runner, a.targets⟩
        let result := Pool.run shop.builder graph ⟨⟨.disk m.disk, false, []⟩, .empty⟩
        let summary := Pool.summary shop.builder result
        let log := result.2.log
        let console := Console.empty.writeLog (workers > 1) (log.shown a.verbosity)
        let console := console.writeLines (Report.summaryLines summary log 0)
        let m := match result.2.workspace.files with
          | .disk disk => { m with disk }
          | .memory _ => m
        (m, console,
          if summary.cancelled then .error .cancelled
          else if Report.isSuccess summary log then .ok ()
          else .error .buildFailed)

/-- Shows the graph of projects. -/
def graph (m : Machine) (a : GraphArguments) : CommandResult :=
  match m.loadSettings with
  | .error e => (m, .empty, .error e)
  | .ok (s, m) =>
    match m.entryProjects a.projects with
    | .error e => (m, .empty, .error e)
    | .ok entries =>
      match m.discover s a.properties (s.cacheDirectory? m.vars a.noCache) entries with
      | (.error e, m) => (m, .empty, .error e)
      | (.ok graph, m) =>
        let text :=
          if a.asJson then Report.jsonGraph graph.edges ++ "\n"
          else "\nProject dependency graph (" ++ toString graph.nodes.length ++ " project(s))\n" ++
            DependencyTree.render graph.edges
        (m, Console.empty.write text, .ok ())

/-- The only project of the current directory. -/
def onlyProject (m : Machine) : Except Failure Path := do
  match ← m.entryProjects [] with
  | [file] => return file
  | found =>
    throw (.other ("Found " ++ toString found.length ++
      " project files in the current directory; name the one to inspect."))

/-- Shows the targets of a loaded project. -/
def describe (m : Machine) (s : Settings) (p : Project) : Console × Except Failure Unit :=
  let files := FileSystem.disk m.disk
  match p.evaluate (s.globals []) files with
  | .error e =>
    (.empty, .error (.context ("Failed to evaluate '" ++ p.file.text ++ "'") (.evaluation e)))
  | .ok env =>
    let console := Console.empty.write
      ("\nTargets of " ++ p.name ++ " [" ++ p.file.text ++ "]:\n")
    match Report.targetList p ((p.place files).context env) with
    | .error e => (console, .error (.evaluation e))
    | .ok lines => (console.writeLines lines, .ok ())

/-- Lists the targets of a project. -/
def targets (m : Machine) (a : TargetsArguments) : CommandResult :=
  match m.loadSettings with
  | .error e => (m, .empty, .error e)
  | .ok (s, m) =>
    match (a.project.map Except.ok).getD m.onlyProject with
    | .error e => (m, .empty, .error e)
    | .ok file =>
      let cacheFolder := s.cacheDirectory? m.vars false
      let (loaded, cache) := Discovery.loadThrough ⟨.disk m.disk, .empty⟩
        (cacheFolder.map m.cacheAt) file
      let m := m.setCache? cacheFolder cache
      match loaded with
      | .error e => (m, .empty, .error (.load e))
      | .ok p => (m, m.describe s p)

/-- Deletes the cached projects of a directory and tells how many there were. -/
def clearCache (m : Machine) (folder : Path) : Except Failure (Nat × Machine) :=
  let cached := (m.cacheAt folder).files.map Prod.fst
  if m.disk.isThere folder then
    match m.disk.list folder with
    | .error e =>
      .error (.context ("Failed to list cache directory '" ++ folder.text ++ "'")
        (.other e.message))
    | .ok names =>
      -- Files that look like entries are deleted whether or not they were cached here.
      let doomed := names.filter fun name =>
        ProjectCache.isEntry name && m.disk.isFile (folder.join ⟨name⟩)
      let disk := doomed.foldl
        (fun disk name => ((disk.delete (folder.join ⟨name⟩)).toOption).getD disk) m.disk
      let count := doomed.length +
        (cached.filter fun name => ProjectCache.isEntry name && name ∉ doomed).length
      .ok (count, { m with disk }.setCache folder .empty)
  else .ok ((m.cacheAt folder).clear.2, m.setCache folder .empty)

/-- Does something with the project cache. -/
def cache (m : Machine) (a : CacheAction) : CommandResult :=
  match m.loadSettings with
  | .error e => (m, .empty, .error e)
  | .ok (s, m) =>
    match UserFolder.projectCache m.vars s.cacheFolder with
    | .error e =>
      (m, .empty, .error (.context "Could not determine the cache directory" (.template e)))
    | .ok folder =>
      match a with
      | .path => (m, Console.empty.write (folder.text ++ "\n"), .ok ())
      | .clean =>
        match m.clearCache folder with
        | .error e => (m, .empty, .error e)
        | .ok (count, m) =>
          (m, Console.empty.write ("✔ Removed " ++ toString count ++
            " cached project(s) from '" ++ folder.text ++ "'.\n"), .ok ())

end Machine

namespace Program

/-- The commands. -/
inductive Command where
  | build
  | cache
  | graph
  | targets
deriving DecidableEq, Repr

/-- The command of a name. -/
def command? (name : String) : Option Command :=
  List.lookup name [("build", .build), ("b", .build), ("cache", .cache), ("graph", .graph),
    ("tree", .graph), ("targets", .targets), ("ls", .targets)]

/-- The version of the program. -/
def versionText : String :=
  UserFolder.programName ++ " " ++ ProjectCache.version ++ "\n"

/-- What the arguments in front of a command ask for, if they ask for something themselves. Only
the first one counts; letters that are all known are read as options. -/
def preliminary? (first : String) : Option Outcome :=
  let version := Outcome.finished (Console.empty.write versionText) 0
  match first.toList with
  | '-' :: '-' :: text =>
    match text.span (· ≠ '=') with
    | (name, value) =>
      if name = "help".toList then some (.usage (if value = [] then .help else .tooManyValues))
      else if name = "version".toList then
        some (if value = [] then version else .usage .tooManyValues)
      else none
  | '-' :: c :: rest =>
    if (c :: rest).all fun c => c = 'h' || c = 'V' then
      some (if c = 'h' then .usage .help else version)
    else none
  | _ => none

/-- The arguments without a `--` in front. -/
def dropEscape : List String → List String
  | "--" :: rest => rest
  | arguments => arguments

/-- The command that arguments name, and what they tell it. -/
def dispatch (arguments : List String) : Command × List String :=
  match arguments with
  | [] => (.build, [])
  | first :: rest =>
    match command? first with
    | some c => (c, rest)
    | none => (.build, first :: rest)

/-- Ends a command: a failure is reported, unless everything has been said. -/
def conclude (result : CommandResult) : Machine × Outcome :=
  match result with
  | (m, console, .ok ()) => (m, .finished console 0)
  | (m, console, .error e) =>
    let code := e.exitCode
    let console :=
      if code = Failure.cancelledCode then console.complain "\nBuild cancelled.\n"
      -- What failed in a build has been logged already.
      else if code = Failure.buildFailedCode then console
      else console.complain ("\nError: " ++ e.report ++ "\n")
    (m, .finished console code)

/-- Runs a command with its arguments, if they make sense. -/
def perform {α : Type} (m : Machine) (arguments : Except UsageError α)
    (act : Machine → α → CommandResult) : Machine × Outcome :=
  match arguments with
  | .error e => (m, .usage e)
  | .ok a => conclude (act m a)

/-- Runs the program. -/
def run (m : Machine) (arguments : List String) : Machine × Outcome :=
  match arguments.head?.bind preliminary? with
  | some outcome => (m, outcome)
  | none =>
    match dispatch (dropEscape arguments) with
    | (.build, rest) => perform m (BuildArguments.read rest) Machine.build
    | (.graph, rest) => perform m (GraphArguments.read rest) Machine.graph
    | (.targets, rest) => perform m (TargetsArguments.read rest) Machine.targets
    | (.cache, rest) => perform m (CacheAction.read rest) Machine.cache

end Program

end BuildEngine
