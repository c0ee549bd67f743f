import BuildEngine.Compiler
import BuildEngine.Log
import BuildEngine.Project.Evaluation

/-!
# Building a project

What the targets and tasks of a project work on. The session is what they change: the environment
of the project, the workspace that all projects share, and the log. The site is what stays as it
is while they run.
-/

namespace BuildEngine

/-- What building a project changes. -/
structure Session where
  /-- The environment of the project. -/
  environment : Environment
  /-- What all projects share. -/
  workspace : Workspace
  /-- The log. -/
  log : Log
deriving DecidableEq, Repr

/-- Where a project is built. -/
structure Site where
  /-- The project. -/
  project : Project
  /-- What compiles. -/
  compiler : Compiler
  /-- What runs commands. -/
  runner : Runner
  /-- The number of the logger that tasks write with. -/
  logger : Nat

namespace Site

/-- The directory that relative paths start from. -/
def base (site : Site) : Path :=
  site.project.directory

/-- Where definitions are evaluated. -/
def place (site : Site) (s : Session) : Place :=
  ⟨s.workspace.files, site.base⟩

/-- What expressions are evaluated against. -/
def context (site : Site) (s : Session) : Context :=
  (site.place s).context s.environment

/-- What stands in front of every line that a task writes. -/
def indent : String := "  "

/-- Writes the lines of a text as messages of a task. -/
def say (site : Site) (s : Session) (importance : Importance) (text : String) : Session :=
  { s with log := s.log.writeLines site.logger (.message importance) indent text }

/-- Writes a message. -/
def announce (site : Site) (s : Session) (importance : Importance) (text : String) : Session :=
  { s with log := s.log.write site.logger (.message importance) text }

/-- Writes a warning. -/
def warn (site : Site) (s : Session) (text : String) : Session :=
  { s with log := s.log.write site.logger .warning text }

/-- Writes an error. -/
def complain (site : Site) (s : Session) (text : String) : Session :=
  { s with log := s.log.write site.logger .error text }

/-- How many errors the logger of the site has written. -/
def errorCount (site : Site) (s : Session) : Nat :=
  s.log.count site.logger .error

end Site

namespace Session

/-- Sets an output of a task. -/
def setOutput (s : Session) (name value : String) : Session :=
  { s with environment := s.environment.setOutput name value }

/-- Puts other files in place. -/
def setFiles (s : Session) (files : FileSystem) : Session :=
  { s with workspace := { s.workspace with files } }

end Session

end BuildEngine
