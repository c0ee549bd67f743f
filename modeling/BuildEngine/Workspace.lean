import BuildEngine.FileSystem.Basic
import BuildEngine.Process.Command

/-!
# Workspaces

What all tasks of a build share: the files, whether the build is cancelled, and what a rehearsing
compiler was asked for.
-/

namespace BuildEngine

/-- Everything that a compiler has to know. -/
structure CompileRequest where
  /-- The source files. -/
  sources : List Path
  /-- The libraries to refer to. -/
  references : List Path
  /-- The files to embed. -/
  resources : List Path
  /-- The file to write. -/
  output : Path
  /-- The kind of file to write, if it was told. -/
  targetType : Option String
  /-- The constants to define. -/
  constants : List String
  /-- Flags to pass as they are. -/
  flags : List String
  /-- The directory the compiler runs in. -/
  directory : Path
deriving DecidableEq, Repr

/-- What all tasks of a build share. -/
structure Workspace where
  /-- The files. -/
  files : FileSystem
  /-- Whether the build is cancelled. -/
  cancelled : Bool
  /-- The compilations that a rehearsing compiler was asked for. -/
  requests : List CompileRequest
deriving DecidableEq, Repr

end BuildEngine
