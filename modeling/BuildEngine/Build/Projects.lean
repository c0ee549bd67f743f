import BuildEngine.Build.Basic
import BuildEngine.Graph.Pool

/-!
# Building projects

How the projects of a graph are built: each with its own environment and its own logger, while
the workspace and the log go from one to the next.
-/

namespace BuildEngine

/-- What all projects of a build are built with. -/
structure Workshop where
  /-- What compiles. -/
  compiler : Compiler
  /-- What runs commands. -/
  runner : Runner
  /-- The targets that are built in every project. -/
  targets : List String

/-- What goes from one project to the next. -/
structure BuildState where
  /-- What all projects share. -/
  workspace : Workspace
  /-- The log. -/
  log : Log
deriving DecidableEq, Repr

namespace Workshop

/-- Builds a project that was handed out. -/
def buildProject (w : Workshop) (r : BuildRequest) (s : BuildState) : Bool × BuildState :=
  let log := s.log.addLogger
  let site : Site :=
    { project := r.project, compiler := w.compiler, runner := w.runner, logger := log.loggers }
  let (session, _, result) :=
    site.build ⟨r.environment, s.workspace, log⟩ (.start r.project) w.targets
  (result.isOk, ⟨session.workspace, session.log⟩)

/-- The builder of a pool. -/
def builder (w : Workshop) : Builder BuildState where
  build := w.buildProject
  isCancelled s := s.workspace.cancelled

end Workshop

end BuildEngine
