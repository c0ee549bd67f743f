import BuildEngine.Graph.Discovery
import BuildEngine.Settings

/-!
# Failures of the program

Why a command of the program failed, and the exit code that tells what kind of failure it was. A
failure may be told in a context; its report is that context and every cause behind it.
-/

namespace BuildEngine

/-- Why a command failed. -/
inductive Failure where
  /-- Something was not built; what that was has been said. -/
  | buildFailed
  /-- The build was cancelled. -/
  | cancelled
  | parse (reason : ParseError)
  | evaluation (reason : EvalError)
  | load (reason : LoadError)
  | graph (reason : GraphError)
  | discovery (reason : DiscoveryError)
  | settings (reason : SettingsError)
  | template (reason : TemplateError)
  /-- A failure with a message only. -/
  | other (message : String)
  /-- A failure and what was being done. -/
  | context (text : String) (inner : Failure)
deriving DecidableEq, Repr

/-- Whether a project file cannot be loaded because of what is written in it. -/
def LoadError.isParseFailure : LoadError → Bool
  | .unreadable .. => false
  | .malformed .. | .badExpression .. | .badItem .. => true

namespace Failure

/-- The exit code of a build that failed. -/
def buildFailedCode : Nat := 1

/-- The exit code for texts that cannot be read. -/
def parseCode : Nat := 2

/-- The exit code for everything else. -/
def internalCode : Nat := 3

/-- The exit code of a cancelled build. -/
def cancelledCode : Nat := 130

/-- The exit code of a failure. -/
def exitCode : Failure → Nat
  | buildFailed => buildFailedCode
  | cancelled => cancelledCode
  | parse _ => parseCode
  | evaluation _ => buildFailedCode
  | load reason | discovery (.load reason) =>
    if reason.isParseFailure then parseCode else internalCode
  | graph (.cycle ..) | discovery (.graph (.cycle ..)) => buildFailedCode
  | discovery (.evaluation ..) => buildFailedCode
  | graph _ | discovery _ | settings _ | template _ | other _ => internalCode
  | context _ inner => inner.exitCode

/-- The messages of a failure and of the causes behind it. -/
def messages : Failure → List String
  | buildFailed => ["Build failed."]
  | cancelled => ["Build was cancelled."]
  | parse reason => [reason.message]
  | evaluation reason => [reason.message]
  | load reason => reason.message :: reason.causes
  | graph reason => [reason.message]
  | discovery reason => reason.message :: reason.causes
  | settings reason => reason.message :: reason.causes
  | template reason => [reason.message]
  | other message => [message]
  | context text inner => text :: inner.messages

/-- The report of a failure. -/
def report (f : Failure) : String :=
  String.intercalate ": " f.messages

end Failure

end BuildEngine
