import BuildEngine.Build.Task
import BuildEngine.Expr.Parser

/-!
# Targets

A target runs its tasks in order unless its condition is false or its outputs are up to date. The
first task that fails or writes an error ends the build, and so does a build found cancelled in
front of a task.
-/

namespace BuildEngine

/-- Why a build ended early. -/
inductive BuildError where
  /-- A task of a target failed. -/
  | failed (target : String)
  /-- A target needs itself. -/
  | circular (target through : String)
  /-- An expression has no meaning. -/
  | evaluation (reason : EvalError)
  /-- What was asked for is no list of targets. -/
  | targetList (text : String) (reason : ParseError)
  | cancelled
deriving DecidableEq, Repr

/-- The message of a build error. -/
def BuildError.message : BuildError → String
  | failed target => "Target '" ++ target ++ "' failed."
  | circular target through =>
    "Target '" ++ target ++ "' depends on itself through '" ++ through ++ "'."
  | evaluation reason => reason.message
  | targetList text reason => "Invalid target list '" ++ text ++ "': " ++ reason.message
  | cancelled => "Build was cancelled."

/-- What a part of a build leaves, and its value if it did not end early. -/
abbrev Built (α : Type) := Session × Except BuildError α

namespace Site

/-- The times of all files, if they can all be read. -/
def times (files : FileSystem) (paths : List Path) : Option (List Nat) :=
  paths.mapM fun p => (files.modified p).toOption

/-- Whether the oldest output is no older than the newest input. Without inputs or outputs, or
unless the time of every file can be read, nothing is up to date. -/
def areUpToDate (files : FileSystem) (inputs outputs : List Path) : Bool :=
  match times files inputs, times files outputs with
  | some inputTimes, some outputTimes =>
    match inputTimes.max?, outputTimes.min? with
    | some newest, some oldest => newest ≤ oldest
    | _, _ => false
  | _, _ => false

/-- Whether a target need not run. -/
def isUpToDate (site : Site) (s : Session) (t : Target) : Except EvalError Bool :=
  match t.inputs, t.outputs with
  | some inputs, some outputs => do
    let inputs ← inputs.evaluateEntries (site.context s)
    let outputs ← outputs.evaluateEntries (site.context s)
    return areUpToDate s.workspace.files (inputs.map site.fullPath) (outputs.map site.fullPath)
  | _, _ => .ok false

/-- Goes on with a value, or ends the build if it could not be evaluated. -/
def require {α β : Type} (site : Site) (s : Session) (subject : String)
    (value : Except EvalError α) (next : α → Built β) : Built β :=
  match value with
  | .ok a => next a
  | .error e => (site.complain s (subject ++ ": " ++ e.message), .error (.evaluation e))

/-- Runs the tasks of a target. -/
def runTasks (site : Site) (t : Target) (s : Session) : List TaskNode → Built Unit
  | [] => (s, .ok ())
  | node :: rest =>
    if s.workspace.cancelled then (s, .error .cancelled)
    else
      site.require s t.name (Expr.evaluateOptional node.condition (site.context s)) fun
        | false => runTasks site t s rest
        | true =>
          match site.runTask s node.task with
          | (after, .ok ()) =>
            -- A task that ends well may still have logged an error.
            if site.errorCount s < site.errorCount after then (after, .error (.failed t.name))
            else runTasks site t after rest
          | (after, .error .cancelled) => (after, .error .cancelled)
          | (after, .error e) =>
            (site.complain after (node.task.kindName ++ ": " ++ e.message), .error (.failed t.name))

/-- What is said of a target whose condition is false. -/
def skippedMessage (t : Target) : String :=
  "Target '" ++ t.name ++ "' skipped: condition \"" ++ ((t.condition.map Expr.render).getD "") ++
    "\" was false."

/-- What is said of a target that is up to date. -/
def upToDateMessage (t : Target) : String :=
  "Skipping target '" ++ t.name ++
    "' because all output files are up-to-date with respect to the input files."

/-- Runs a target. -/
def runTarget (site : Site) (s : Session) (t : Target) : Built Unit :=
  site.require s t.name (Expr.evaluateOptional t.condition (site.context s)) fun
    | false => (site.announce s .low (skippedMessage t), .ok ())
    | true =>
      site.require s t.name (site.isUpToDate s t) fun
        | true => (site.announce s .low (upToDateMessage t), .ok ())
        | false => site.runTasks t (site.announce s .normal (t.name ++ ":")) t.tasks

end Site

end BuildEngine
