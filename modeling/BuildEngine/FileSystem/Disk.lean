import BuildEngine.FileSystem.Error

/-!
# Files on a disk

A tree of directories and files, without symbolic links. Directories exist on their own, a path is
followed one segment at a time, and what stands in the way is reported the way the system reports
it.
-/

namespace BuildEngine

/-- What a place on a disk holds. -/
inductive DiskNode where
  | folder (modified : Nat)
  | file (contents : Text.Bytes) (modified : Nat)
deriving DecidableEq, Repr

/-- The time of the last change of a node. -/
def DiskNode.modified : DiskNode → Nat
  | folder t => t
  | file _ t => t

/-- A disk: its nodes below the root by the names on the way to them. -/
structure Disk where
  /-- The nodes, in the order of their names. -/
  nodes : List (List String × DiskNode)
  /-- The time of the last change. -/
  clock : Nat
  /-- The directory that relative paths start from. -/
  current : Path
deriving DecidableEq, Repr

namespace Disk

/-- A disk with nothing on it. -/
def empty (current : Path) : Disk :=
  { nodes := [], clock := 0, current }

/-- The node at a place; the root is a directory. -/
def node? (d : Disk) (place : List String) : Option DiskNode :=
  if place = [] then some (.folder 0)
  else (d.nodes.find? fun n => n.1 = place).map Prod.snd

/-- Follows segments from a place. Every segment needs a directory to stand in, also an empty
one behind a separator. -/
def follow (d : Disk) : List String → List (List Char) → Except SystemError (List String)
  | place, [] => .ok place
  | place, segment :: rest =>
    match d.node? place with
    | none => .error .notFound
    | some (.file ..) => .error .notADirectory
    | some (.folder _) =>
      if Path.isVoid segment then d.follow place rest
      -- Above the root is the root.
      else if segment = ['.', '.'] then d.follow place.dropLast rest
      else d.follow (place ++ [String.ofList segment]) rest

/-- The place of a path; the last name on the way need not exist. -/
def place (d : Disk) (p : Path) : Except SystemError (List String) :=
  if p.text = "" then .error .notFound
  else if p.isAbsolute then d.follow [] p.segments
  else do d.follow (← d.follow [] d.current.segments) p.segments

/-- The node at a path. -/
def lookup (d : Disk) (p : Path) : Except SystemError DiskNode := do
  match d.node? (← d.place p) with
  | some n => return n
  | none => .error .notFound

/-- Whether something is at a path. -/
def isThere (d : Disk) (p : Path) : Bool :=
  (d.lookup p).isOk

/-- Whether a path is a directory. -/
def isFolder (d : Disk) (p : Path) : Bool :=
  match d.lookup p with
  | .ok (.folder _) => true
  | _ => false

/-- Whether a path is a file. -/
def isFile (d : Disk) (p : Path) : Bool :=
  match d.lookup p with
  | .ok (.file ..) => true
  | _ => false

/-- Puts a node at a place, in place of what was there. -/
def insertNode (place : List String) (node : DiskNode) :
    List (List String × DiskNode) → List (List String × DiskNode)
  | [] => [(place, node)]
  | (other, n) :: rest =>
    if other = place then (place, node) :: rest
    else if place < other then (place, node) :: (other, n) :: rest
    else (other, n) :: insertNode place node rest

/-- Notes the time of a change in the directory at a place. -/
def touchFolder (place : List String) (time : Nat) (nodes : List (List String × DiskNode)) :
    List (List String × DiskNode) :=
  nodes.map fun n =>
    match n with
    | (other, .folder t) => (other, .folder (if other = place then time else t))
    | n => n

/-- Puts a node at a place, moving the clock. -/
def put (d : Disk) (place : List String) (node : Nat → DiskNode) : Disk :=
  let time := d.clock + 1
  let nodes := if (d.node? place).isSome then d.nodes else touchFolder place.dropLast time d.nodes
  { d with nodes := insertNode place (node time) nodes, clock := time }

/-- The contents of a file. -/
def read (d : Disk) (p : Path) : Except FileError Text.Bytes :=
  match d.lookup p with
  | .ok (.file contents _) => .ok contents
  | .ok (.folder _) => .error (.system .isADirectory)
  | .error e => .error (.system e)

/-- Makes one directory. -/
def makeFolder (d : Disk) (p : Path) : Except SystemError Disk := do
  let place ← d.place p
  if (d.node? place).isSome then .error .alreadyExists
  else return d.put place .folder

/-- Makes a directory and the ones above it that are missing; `depth` bounds how far up. -/
def makeFolders (d : Disk) (p : Path) : (depth : Nat) → Except SystemError Disk
  | 0 => .error .notFound
  | depth + 1 =>
    if p.text = "" then .ok d
    else
      match d.makeFolder p with
      | .ok d => .ok d
      | .error .notFound => do
        match p.parent? with
        | none => .error .notFound
        | some parent => (← d.makeFolders parent depth).makeFolder p
      | .error e => if d.isFolder p then .ok d else .error e

/-- Makes the directory that a path lies in. -/
def makeParent (d : Disk) (p : Path) : Except FileError Disk :=
  match p.parent? with
  | none => .ok d
  | some parent => (d.makeFolders parent (parent.components.length + 1)).mapError .system

/-- Writes a file whose directory is there. -/
def writeHere (d : Disk) (p : Path) (contents : Text.Bytes) : Except FileError Disk :=
  match d.place p with
  | .error .notFound =>
    -- A separator at the end asks for a directory, which a file cannot become.
    if p.text.toList.getLast? = some '/' then .error (.system .isADirectory)
    else .error (.system .notFound)
  | .error e => .error (.system e)
  | .ok place =>
    match d.node? place with
    | some (.folder _) => .error (.system .isADirectory)
    | _ => .ok (d.put place (.file contents))

/-- Writes a file, making the directories that are missing. -/
def write (d : Disk) (p : Path) (contents : Text.Bytes) : Except FileError Disk := do
  (← d.makeParent p).writeHere p contents

/-- Copies a file, making the directories that are missing. A file copied onto itself is empty
afterwards, because the destination is cut before anything is read. -/
def copy (d : Disk) (source destination : Path) : Except FileError Disk := do
  let d ← d.makeParent destination
  match d.lookup source with
  | .error e => .error (.system e)
  | .ok (.folder _) => .error .notAFile
  | .ok (.file contents _) =>
    let onItself := (d.place source).toOption = (d.place destination).toOption
    d.writeHere destination (if onItself then [] else contents)

/-- Deletes a file. -/
def delete (d : Disk) (p : Path) : Except FileError Disk :=
  match d.place p with
  | .error e => .error (.system e)
  | .ok place =>
    match d.node? place with
    | none => .error (.system .notFound)
    | some (.folder _) => .error (.system .isADirectory)
    | some (.file ..) =>
      let time := d.clock + 1
      .ok { d with
        nodes := touchFolder place.dropLast time (d.nodes.filter fun n => n.1 ≠ place)
        clock := time }

/-- The time of the last change of what is at a path. -/
def modified (d : Disk) (p : Path) : Except FileError Nat :=
  ((d.lookup p).map DiskNode.modified).mapError .system

/-- The files below a directory, in order, as seen from the path it was given by. -/
def filesBelow (d : Disk) (root : Path) : List Path :=
  match d.place root with
  | .error _ => []
  | .ok place =>
    match d.node? place with
    | some (.folder _) =>
      d.nodes.filterMap fun n =>
        match n with
        | (other, .file ..) =>
          if place.isPrefixOf other then
            some (root.join ⟨String.intercalate "/" (other.drop place.length)⟩)
          else none
        | _ => none
    | _ => []

/-- The names that stand in a directory. -/
def list (d : Disk) (p : Path) : Except FileError (List String) :=
  match d.place p with
  | .error e => .error (.system e)
  | .ok place =>
    match d.node? place with
    | none => .error (.system .notFound)
    | some (.file ..) => .error (.system .notADirectory)
    | some (.folder _) =>
      .ok (d.nodes.filterMap fun n =>
        if n.1.dropLast = place then n.1.getLast? else none)

end Disk

end BuildEngine
