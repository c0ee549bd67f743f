import BuildEngine.Build.FileTasks
import BuildEngine.Build.ProcessTasks
import BuildEngine.Build.ReferenceTasks

/-!
# Tasks

What each task does. A task that fails keeps the effects that it had before.
-/

namespace BuildEngine

/-- The name of a kind of task in project files. -/
def Task.kindName : Task → String
  | message .. => "Message"
  | error _ => "Error"
  | warning _ => "Warning"
  | setProperties _ => "PropertyGroup"
  | setItems _ => "ItemGroup"
  | copy .. => "Copy"
  | delete _ => "Delete"
  | execute .. => "Exec"
  | compile _ => "Compile"
  | resolveReferences .. => "ResolveReferences"
  | output .. => "Output"

namespace Site

/-- Puts the environment in place that definitions left. -/
def withDefined (s : Session) (defined : Environment.Defined) : TaskResult :=
  ({ s with environment := defined.1 }, defined.2.mapError .evaluation)

/-- Hands an output of an earlier task to a property and to items. -/
def passOutput (s : Session) (parameter : String) (property item : Option String) : TaskResult :=
  if property = none ∧ item = none then (s, .error (.invalid (.noReceiver parameter)))
  else
    let value := (s.environment.output? parameter).getD ""
    let env := match property with
      | some name => s.environment.setProperty name value
      | none => s.environment
    let env := match item with
      | some type => (Text.entries value).foldl (fun env i => env.addItem (.ofIdentity type i)) env
      | none => env
    ({ s with environment := env }, .ok ())

/-- Runs a task. -/
def runTask (site : Site) (s : Session) : Task → TaskResult
  | .message text importance =>
    withValue s (text.evaluateText (site.context s)) fun t => (site.say s importance t, .ok ())
  | .error text =>
    withValue s (text.evaluateText (site.context s)) fun t => (site.complain s t, .ok ())
  | .warning text =>
    withValue s (text.evaluateText (site.context s)) fun t => (site.warn s t, .ok ())
  | .setProperties properties =>
    withDefined s (s.environment.defineProperties (site.place s) properties)
  | .setItems items => withDefined s (s.environment.defineItemsAll (site.place s) items)
  | .copy sources files folder skipUnchanged => site.copy s sources files folder skipUnchanged
  | .delete files => site.delete s files
  | .execute command directory ignoreExitCode => site.execute s command directory ignoreExitCode
  | .compile t => site.compile s t
  | .resolveReferences references searchPaths outputItem =>
    site.resolveReferences s references searchPaths outputItem
  | .output parameter property item => passOutput s parameter property item

end Site

end BuildEngine
