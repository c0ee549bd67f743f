import BuildEngine.Build.Session

/-!
# Task errors

Why a task failed.
-/

namespace BuildEngine

/-- What a task was doing with a file. -/
inductive FileAction where
  | copying
  | deleting
deriving DecidableEq, Repr

/-- The word for what a task was doing. -/
def FileAction.word : FileAction → String
  | copying => "Copying"
  | deleting => "Deleting"

/-- What is wrong with the parameters of a task. -/
inductive ParameterFault where
  /-- An output that goes nowhere. -/
  | noReceiver (parameter : String)
  /-- A copy needs one kind of destination. -/
  | copyDestination
  /-- There is nothing to compile. -/
  | noSources
  /-- There is nothing to compile to. -/
  | noOutput
  /-- The flags cannot be cut into words. -/
  | unreadableFlags (flags : String)
deriving DecidableEq, Repr

/-- The message of a fault. -/
def ParameterFault.message : ParameterFault → String
  | noReceiver parameter =>
    "'" ++ parameter ++ "' needs a property_name or an item_name to write to."
  | copyDestination => "exactly one of destination_files and destination_folder must be set."
  | noSources => "no source files to compile."
  | noOutput => "output_assembly is empty."
  | unreadableFlags flags => "could not parse additional_flags '" ++ flags ++ "'."

/-- Why a task failed. -/
inductive TaskError where
  | evaluation (reason : EvalError)
  | file (action : FileAction) (path : Path) (reason : FileError)
  | invalid (fault : ParameterFault)
  | lengthMismatch (sources destinations : Nat)
  | exitCode (command : String) (code : Int)
  | process (reason : ProcessError)
  | compiler (reason : CompileError)
  | cancelled
deriving DecidableEq, Repr

namespace TaskError

/-- The message of a task error. -/
def message : TaskError → String
  | evaluation reason => reason.message
  | file action path reason =>
    action.word ++ " '" ++ path.text ++ "' failed: " ++ reason.message
  | invalid fault => "Invalid parameters: " ++ fault.message
  | lengthMismatch sources destinations =>
    toString sources ++ " source file(s) but " ++ toString destinations ++
      " destination file(s); the lists must have the same length."
  | exitCode command code =>
    "Command '" ++ command ++ "' exited with code " ++ toString code ++ "."
  | process reason => reason.message
  | compiler reason => reason.message
  | cancelled => "Operation was cancelled by the user."

/-- The task error of a command that did not run. -/
def ofProcess : ProcessError → TaskError
  | .cancelled => cancelled
  | reason => process reason

/-- The task error of a failed compilation. -/
def ofCompile : CompileError → TaskError
  | .process .cancelled => cancelled
  | reason => compiler reason

end TaskError

/-- What a task leaves, and whether it failed. -/
abbrev TaskResult := Session × Except TaskError Unit

namespace Site

/-- Goes on with a value, or fails if it could not be evaluated. -/
def withValue {α : Type} (s : Session) (value : Except EvalError α) (next : α → TaskResult) :
    TaskResult :=
  match value with
  | .ok a => next a
  | .error e => (s, .error (.evaluation e))

/-- A text that may be absent; a blank one counts as absent. -/
def textOf? (site : Site) (s : Session) (e : Option Expr) : Except EvalError (Option String) :=
  match e with
  | none => .ok none
  | some e => do
    let text ← e.evaluateText (site.context s)
    return if Text.trim text = "" then none else some text

/-- A list that may be absent, and is empty then. -/
def entriesOf (site : Site) (s : Session) (e : Option Expr) : Except EvalError (List String) :=
  match e with
  | none => .ok []
  | some e => e.evaluateEntries (site.context s)

/-- The full path of a text. -/
def fullPath (site : Site) (text : String) : Path :=
  site.base.absolutize ⟨text⟩

end Site

end BuildEngine
