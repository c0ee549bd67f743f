import BuildEngine.FileSystem.Error
import BuildEngine.Process.Quoting
import BuildEngine.Text.Blank

/-!
# Commands

A command is a program with its arguments and the directory it runs in.
-/

namespace BuildEngine

/-- A program to run. -/
structure Command where
  /-- The program. -/
  program : String
  /-- Its arguments. -/
  arguments : List String
  /-- The directory it runs in. -/
  directory : Path
deriving DecidableEq, Repr

/-- Why a program could not be started. -/
inductive SpawnError where
  /-- The system refused. -/
  | system (reason : SystemError)
  /-- A text with a NUL in it cannot be passed to the system. -/
  | interiorNul
deriving DecidableEq, Repr

/-- The message of a failed start. -/
def SpawnError.message : SpawnError → String
  | system reason => (FileError.system reason).message
  | interiorNul => "nul byte found in provided data"

/-- Why a command did not run. -/
inductive ProcessError where
  /-- The command line cannot be cut into words. -/
  | unreadable (line : String)
  /-- The command line has no words. -/
  | noCommand
  /-- The program could not be started. -/
  | spawn (line : String) (reason : SpawnError)
  /-- The build is cancelled. -/
  | cancelled
deriving DecidableEq, Repr

/-- The message of a process error. -/
def ProcessError.message : ProcessError → String
  | unreadable line => "Command could not be parsed: " ++ line
  | noCommand => "No command specified to run."
  | spawn line reason =>
    "Command '" ++ line ++ "' could not be executed: " ++ reason.message
  | cancelled => "Operation was cancelled by the user."

namespace Command

/-- The command that a command line spells. -/
def ofLine (line : String) (directory : Path) : Except ProcessError Command :=
  match Words.split (Text.trim line) with
  | none => .error (.unreadable (Text.trim line))
  | some [] => .error .noCommand
  | some (program :: arguments) => .ok { program, arguments, directory }

/-- The program and its arguments. -/
def words (c : Command) : List String :=
  c.program :: c.arguments

/-- A command line for the command, to be shown. -/
def line (c : Command) : String :=
  (Quoting.join? c.words).getD (String.intercalate " " c.words)

end Command

/-- What a program left when it had ended. -/
structure ProcessOutput where
  /-- The exit code, which is negative for a program that was ended by a signal. -/
  exitCode : Int
  /-- The text written to the standard output. -/
  standard : String
  /-- The text written to the standard error. -/
  diagnostics : String
deriving DecidableEq, Repr

/-- Whether a program succeeded. -/
def ProcessOutput.isSuccess (o : ProcessOutput) : Bool :=
  o.exitCode = 0

end BuildEngine
