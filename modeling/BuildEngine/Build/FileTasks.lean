import BuildEngine.Build.TaskError

/-!
# Copying and deleting files

A copy pairs every source with a destination and goes through the pairs in order. It can leave out
the pairs whose destination is at least as new as the source. The files that were written become
the output of the task, unless a pair fails: then the copies made before it stay, and there is no
output.
-/

namespace BuildEngine.Site

/-- The output that names the copied files. -/
def copiedFiles : String := "CopiedFiles"

/-- The output that names the deleted files. -/
def deletedFiles : String := "DeletedFiles"

/-- The name of the copy of an item. -/
def copyName (site : Site) (i : Item) : String :=
  i.metadataValue site.base WellKnown.filename.name ++
    i.metadataValue site.base WellKnown.extension.name

/-- The destinations of a copy. -/
def destinations (site : Site) (s : Session) (sources : List Item) (files folder : Option Expr) :
    Except TaskError (List Path) :=
  match files, folder with
  | some files, none =>
    (files.evaluateEntries (site.context s)).mapError .evaluation |>.map fun texts =>
      texts.map site.fullPath
  | none, some folder =>
    (folder.evaluateText (site.context s)).mapError .evaluation |>.map fun text =>
      sources.map fun i => (site.fullPath text).join ⟨site.copyName i⟩
  | _, _ => .error (.invalid .copyDestination)

/-- The sources of a copy with their destinations. -/
def copyPairs (site : Site) (s : Session) (sources : Expr) (files folder : Option Expr) :
    Except TaskError (List (Path × Path)) := do
  let items ← (sources.evaluateItems (site.context s) "SourceFiles").mapError .evaluation
  let targets ← site.destinations s items files folder
  if items.length ≠ targets.length then
    throw (.lengthMismatch items.length targets.length)
  return (items.map fun i => site.fullPath i.identity).zip targets

/-- Whether a destination is there and not older than its source. -/
def isUnchanged (files : FileSystem) (source destination : Path) : Bool :=
  match files.modified source, files.modified destination with
  | .ok sourceTime, .ok destinationTime => sourceTime ≤ destinationTime
  | _, _ => false

/-- Copies pairs in order; yields the destinations that were written. -/
def copyAll (site : Site) (skipUnchanged : Bool) (s : Session) :
    List (Path × Path) → Session × Except TaskError (List Path)
  | [] => (s, .ok [])
  | (source, destination) :: rest =>
    if skipUnchanged && isUnchanged s.workspace.files source destination then
      let s := site.say s .low
        ("Skipping unchanged file '" ++ source.text ++ "' -> '" ++ destination.text ++ "'.")
      copyAll site skipUnchanged s rest
    else
      let s := site.say s .normal
        ("Copying file from '" ++ source.text ++ "' to '" ++ destination.text ++ "'.")
      match s.workspace.files.copy source destination with
      -- The copies made so far stay.
      | .error e => (s, .error (.file .copying source e))
      | .ok files =>
        let (s, copied) := copyAll site skipUnchanged (s.setFiles files) rest
        (s, copied.map fun paths => destination :: paths)

/-- Ends a task that yields paths, which become an output. -/
def withPaths (name : String) (result : Session × Except TaskError (List Path)) : TaskResult :=
  match result with
  | (s, .ok paths) => (s.setOutput name (Text.joinEntries (paths.map Path.text)), .ok ())
  | (s, .error e) => (s, .error e)

/-- Copies files. -/
def copy (site : Site) (s : Session) (sources : Expr) (files folder : Option Expr)
    (skipUnchanged : Bool) : TaskResult :=
  match site.copyPairs s sources files folder with
  | .error e => (s, .error e)
  | .ok pairs => withPaths copiedFiles (site.copyAll skipUnchanged s pairs)

/-- Deletes those of the paths that are files; yields what was deleted. -/
def deleteAll (site : Site) (s : Session) : List Path → Session × Except TaskError (List Path)
  | [] => (s, .ok [])
  | path :: rest =>
    if s.workspace.files.isFile path then
      let s := site.say s .low ("Deleting file '" ++ path.text ++ "'.")
      match s.workspace.files.delete path with
      | .error e => (s, .error (.file .deleting path e))
      | .ok files =>
        let (s, deleted) := deleteAll site (s.setFiles files) rest
        (s, deleted.map fun paths => path :: paths)
    else deleteAll site s rest

/-- Deletes files. -/
def delete (site : Site) (s : Session) (files : Expr) : TaskResult :=
  withValue s (files.evaluateEntries (site.context s)) fun texts =>
    withPaths deletedFiles (site.deleteAll s (texts.map site.fullPath))

end BuildEngine.Site
