import BuildEngine.Graph.Basic
import BuildEngine.Project.Cache
import BuildEngine.Project.Evaluation

/-!
# Discovery of project graphs

A graph is found by loading projects in waves: the first wave is what was asked for, the next one
what the projects of a wave refer to and what has not been seen before. Dependencies are entered
when all projects are known, so that a cycle is found as such.

Only files can be loaded, and none is loaded twice, so there are at most as many waves that load
something as there are files.
-/

namespace BuildEngine

/-- Why a graph cannot be discovered. -/
inductive DiscoveryError where
  /-- A project cannot be loaded. -/
  | load (reason : LoadError)
  /-- The properties or items of a project cannot be evaluated. -/
  | evaluation (file : Path) (reason : EvalError)
  /-- The projects do not form a graph. -/
  | graph (reason : GraphError)
  /-- The current directory is unknown. -/
  | currentDirectory (reason : FileError)
deriving DecidableEq, Repr

namespace DiscoveryError

/-- The message of a discovery error. -/
def message : DiscoveryError → String
  | load reason => reason.message
  | evaluation file reason =>
    "Failed to evaluate project '" ++ file.text ++ "': " ++ reason.message
  | graph reason => reason.message
  | currentDirectory reason =>
    "Could not determine the current directory: " ++ reason.message

/-- The messages of the errors behind a discovery error. -/
def causes : DiscoveryError → List String
  | load reason => reason.causes
  | evaluation _ reason => [reason.message]
  | graph _ => []
  | currentDirectory reason => [reason.message]

end DiscoveryError

/-- A project with its environment and the projects it refers to. -/
structure LoadedProject where
  /-- The project. -/
  project : Project
  /-- Its environment. -/
  environment : Environment
  /-- The files of the projects that it refers to, each once. -/
  references : List Path
deriving DecidableEq, Repr

namespace Discovery

/-- The type of the items that refer to projects. -/
def referenceType : String := "ProjectReference"

/-- Whether a path is among others. -/
def includes (paths : List Path) (p : Path) : Bool :=
  paths.any fun q => q.same p

/-- Those of the paths that are not seen yet, each once, and what has been seen then. -/
def fresh (seen : List Path) : List Path → List Path × List Path
  | [] => ([], seen)
  | p :: rest =>
    if includes seen p then fresh seen rest
    else
      let (more, seen) := fresh (seen ++ [p]) rest
      (p :: more, seen)

/-- The projects that a project refers to. -/
def references (p : Project) (env : Environment) : List Path :=
  (fresh [] ((env.items referenceType).map fun i => p.directory.absolutize ⟨i.identity⟩)).1

/-- What projects are discovered from. -/
structure Source where
  /-- The files. -/
  files : FileSystem
  /-- The environment around every project. -/
  globals : Environment
deriving DecidableEq, Repr

/-- Loads a project, through a cache if there is one. -/
def loadThrough (s : Source) (cache : Option ProjectCache) (file : Path) :
    Except LoadError Project × Option ProjectCache :=
  match cache with
  | none => (Project.load s.files file, none)
  | some c =>
    let (result, c) := c.load s.files file
    (result, some c)

/-- Evaluates a loaded project and finds what it refers to. -/
def evaluateLoaded (s : Source) (loaded : Except LoadError Project) :
    Except DiscoveryError LoadedProject := do
  let project ← loaded.mapError .load
  let environment ← (project.evaluate s.globals s.files).mapError (.evaluation project.file)
  return { project, environment, references := references project environment }

/-- Loads a project and finds what it refers to. -/
def loadOne (s : Source) (cache : Option ProjectCache) (file : Path) :
    Except DiscoveryError LoadedProject × Option ProjectCache :=
  let (loaded, cache) := loadThrough s cache file
  (evaluateLoaded s loaded, cache)

/-- Loads every project of a wave. One that fails does not keep the others from being loaded. -/
def loadWave (s : Source) (cache : Option ProjectCache) :
    List Path → List (Except DiscoveryError LoadedProject) × Option ProjectCache
  | [] => ([], cache)
  | file :: rest =>
    let (result, cache) := loadOne s cache file
    let (results, cache) := loadWave s cache rest
    (result :: results, cache)

/-- How far a discovery has come. -/
structure State where
  /-- The paths that were asked for or referred to. -/
  seen : List Path
  /-- The paths that are loaded next. -/
  wave : List Path
  /-- The projects that were loaded, in the order of their discovery. -/
  loaded : List LoadedProject
deriving DecidableEq, Repr

/-- The state in front of the first wave. -/
def State.start (current : Path) (entries : List Path) : State :=
  let (wave, seen) := fresh [] (entries.map current.absolutize)
  { seen, wave, loaded := [] }

/-- The state behind a wave whose projects have been loaded. -/
def State.advance (st : State) (results : List LoadedProject) : State :=
  let (wave, seen) := fresh st.seen (results.flatMap LoadedProject.references)
  { seen, wave, loaded := st.loaded ++ results }

/-- Loads waves until one is empty, a project fails, or the given number is used up. -/
def waves (s : Source) : (count : Nat) → Option ProjectCache → State →
    Except DiscoveryError State × Option ProjectCache
  | 0, cache, st => (.ok st, cache)
  | count + 1, cache, st =>
    if st.wave = [] then (.ok st, cache)
    else
      let (results, cache) := loadWave s cache st.wave
      -- The whole wave has been loaded; its first failure in order is reported.
      match results.mapM id with
      | .error e => (.error e, cache)
      | .ok results => waves s count cache (st.advance results)

/-- The graph of loaded projects. -/
def graphOf (loaded : List LoadedProject) : Except GraphError ProjectGraph := do
  -- All projects first: a dependency may point forward.
  let g ← loaded.foldlM (fun g l => ProjectGraph.add g l.project l.environment) .empty
  loaded.foldlM
    (fun g l => l.references.foldlM (fun g r => ProjectGraph.addDependency g l.project.file r) g) g

/-- The graph of the projects that are asked for and all that they refer to. -/
def load (s : Source) (cache : Option ProjectCache) (entries : List Path) :
    Except DiscoveryError ProjectGraph × Option ProjectCache :=
  match s.files.currentDirectory with
  | .error e => (.error (.currentDirectory e), cache)
  | .ok current =>
    let (result, cache) := waves s (s.files.fileCount + 1) cache (State.start current entries)
    (result.bind fun st => (graphOf st.loaded).mapError .graph, cache)

end Discovery

end BuildEngine
