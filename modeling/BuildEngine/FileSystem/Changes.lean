import BuildEngine.FileSystem.Disk

/-!
# Changes of a disk

What has to be done to a disk so that it holds what a later one holds. Both list their nodes in
the order of their places, so that one pass over the two lists finds what differs.
-/

namespace BuildEngine

/-- A step from one disk to another. -/
inductive DiskChange where
  /-- Makes a directory. -/
  | makeFolder (place : List String)
  /-- Writes a file. -/
  | write (place : List String) (contents : Text.Bytes)
  /-- Removes what is at a place. -/
  | remove (place : List String)
deriving DecidableEq, Repr

namespace DiskChange

/-- The step that puts a node at a place where nothing is. -/
def add (place : List String) : DiskNode → DiskChange
  | .folder _ => makeFolder place
  | .file contents _ => write place contents

/-- The steps that turn a node into another one; a directory that is still one stays as it is. -/
def replace (place : List String) : DiskNode → DiskNode → List DiskChange
  | .folder _, .folder _ => []
  | .file old t, .file new u => if old = new ∧ t = u then [] else [write place new]
  | _, new => [remove place, add place new]

/-- The steps from some nodes to others. -/
def between : List (List String × DiskNode) → List (List String × DiskNode) → List DiskChange
  | [], after => after.map fun n => add n.1 n.2
  | before, [] => before.map fun n => remove n.1
  | (p, old) :: before, (q, new) :: after =>
    if p = q then replace p old new ++ between before after
    else if p < q then remove p :: between before ((q, new) :: after)
    else add q new :: between ((p, old) :: before) after
termination_by before after => before.length + after.length

end DiskChange

/-- The steps from a disk to a later one. -/
def Disk.changesTo (before after : Disk) : List DiskChange :=
  DiskChange.between before.nodes after.nodes

end BuildEngine
