import BuildEngine.Workspace

/-!
# Runners

What runs the commands of a build. What a command does is up to the world: while it runs it may
change files, and the build may be cancelled. A runner is told by the courses that commands take
(`Course`): what is seen each time that a command is looked at, up to its end.

A command is waited for. It is looked at again and again, and killed when the build is found
cancelled while it still runs (`Course.wait`). In a build that is cancelled no command is started
at all (`Runner.run`).
-/

namespace BuildEngine

/-- The course of a command, look by look. A command that is never killed and never ends has
none. -/
inductive Course where
  /-- It cannot be started, or not be waited for any longer. -/
  | refused (reason : SpawnError) (left : Workspace)
  /-- It is still running. If it is killed at this look, the workspace stays as it is seen. -/
  | running (seen : Workspace) (rest : Course)
  /-- It has ended, with an exit code unless a signal ended it. -/
  | ended (exitCode : Option Int) (standard diagnostics : Text.Bytes) (left : Workspace)
deriving DecidableEq, Repr

namespace Course

/-- What shows that a program was ended by a signal, in place of an exit code. -/
def signalled : Int := -1

/-- Waits for a command that is shown as a line, and kills it when the build is found cancelled
while it runs. What a command that was killed has written is lost. -/
def wait (line : String) : Course → Except ProcessError ProcessOutput × Workspace
  | .refused reason left => (.error (.spawn line reason), left)
  -- Whether it has ended is asked first, so that a command that has ended is not killed.
  | .running seen rest => if seen.cancelled then (.error .cancelled, seen) else rest.wait line
  | .ended exitCode standard diagnostics left =>
    (.ok ⟨exitCode.getD signalled, Text.decodeLossy standard, Text.decodeLossy diagnostics⟩, left)

end Course

/-- What runs commands. -/
structure Runner where
  /-- The course of a command that is started in a workspace. -/
  start : Command → Workspace → Course

namespace Runner

/-- Runs a command to its end, unless the build is cancelled. -/
def run (r : Runner) (c : Command) (w : Workspace) :
    Except ProcessError ProcessOutput × Workspace :=
  if w.cancelled then (.error .cancelled, w) else (r.start c w).wait c.line

/-- Runs what a command line spells. -/
def runLine (r : Runner) (line : String) (directory : Path) (w : Workspace) :
    Except ProcessError ProcessOutput × Workspace :=
  match Command.ofLine line directory with
  | .error e => (.error e, w)
  | .ok c => r.run c w

end Runner

end BuildEngine
