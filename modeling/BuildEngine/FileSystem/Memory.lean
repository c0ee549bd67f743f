import BuildEngine.FileSystem.Error

/-!
# Files in memory

A file system that holds files only: a directory is there while some file lies below it. Files
are kept in the order of their paths, and two paths with the same components are one file,
shown under the path it was first written to. Every write moves a clock and stamps the file.
-/

namespace BuildEngine

/-- The operations that can be made to fail. -/
inductive FileOperation where
  | read
  | copy
  | delete
  | modified
  | enumerate
  | currentDirectory
deriving DecidableEq, Repr

/-- A file with its contents and the time of its last write. -/
structure StoredFile where
  /-- The path the file was first written to. -/
  path : Path
  /-- What the file holds. -/
  contents : Text.Bytes
  /-- The time of the last write, in seconds. -/
  modified : Nat
deriving DecidableEq, Repr

/-- Files in memory. -/
structure Memory where
  /-- The files, in the order of their paths. -/
  files : List StoredFile
  /-- The time of the last write. -/
  clock : Nat
  /-- The directory that relative paths of a command line start from. -/
  current : Path
  /-- Operations that fail on a path. -/
  faults : List (FileOperation × Path)
deriving DecidableEq, Repr

namespace Memory

/-- No files at all. -/
def empty (current : Path) (faults : List (FileOperation × Path)) : Memory :=
  { files := [], clock := 0, current, faults }

/-- The file at a path. -/
def find? (m : Memory) (p : Path) : Option StoredFile :=
  m.files.find? fun f => f.path.same p

/-- Whether an operation was made to fail on a path. -/
def hasFault (m : Memory) (op : FileOperation) (p : Path) : Bool :=
  m.faults.any fun f => f.1 = op && f.2.same p

/-- Stores a file in place of the one at its path, keeping the path's first spelling. -/
def insertFile (file : StoredFile) : List StoredFile → List StoredFile
  | [] => [file]
  | f :: rest =>
    match file.path.order f.path with
    | .lt => file :: f :: rest
    -- The spelling of the path that came first is kept.
    | .eq => { file with path := f.path } :: rest
    | .gt => f :: insertFile file rest

/-- Writes a file and stamps it with a new time. -/
def write (m : Memory) (p : Path) (contents : Text.Bytes) : Memory :=
  { m with
    files := insertFile ⟨p, contents, m.clock + 1⟩ m.files
    clock := m.clock + 1 }

/-- Gives a file another time, leaving the clock alone. -/
def setModified (m : Memory) (p : Path) (time : Nat) : Memory :=
  { m with files := m.files.map fun f => if f.path.same p then { f with modified := time } else f }

/-- Whether a path is a file, or has a file below it. -/
def isThere (m : Memory) (p : Path) : Bool :=
  m.files.any fun f => f.path.startsWith p

/-- Whether a path is a file. -/
def isFile (m : Memory) (p : Path) : Bool :=
  (m.find? p).isSome

/-- The contents of a file, whether or not reading was made to fail. -/
def contents (m : Memory) (p : Path) : Except FileError Text.Bytes :=
  match m.find? p with
  | some f => .ok f.contents
  | none => .error (.missing p)

/-- The contents of a file. -/
def read (m : Memory) (p : Path) : Except FileError Text.Bytes :=
  if m.hasFault .read p then .error .injected else m.contents p

/-- Copies a file to another path. -/
def copy (m : Memory) (source destination : Path) : Except FileError Memory :=
  if m.hasFault .copy source then .error .injected
  else do return m.write destination (← m.contents source)

/-- Deletes a file. -/
def delete (m : Memory) (p : Path) : Except FileError Memory :=
  if m.hasFault .delete p then .error .injected
  else if m.isFile p then
    .ok { m with files := m.files.filter fun f => !f.path.same p }
  else .error (.missing p)

/-- The time of the last write to a file. -/
def modified (m : Memory) (p : Path) : Except FileError Nat :=
  if m.hasFault .modified p then .error .injected
  else
    match m.find? p with
    | some f => .ok f.modified
    | none => .error (.missing p)

/-- The files below a path, in order. -/
def filesBelow (m : Memory) (root : Path) : Except FileError (List Path) :=
  if m.hasFault .enumerate root then .error .injected
  else .ok ((m.files.map StoredFile.path).filter fun p => p.startsWith root && !p.same root)

/-- The current directory. -/
def currentDirectory (m : Memory) : Except FileError Path :=
  if m.hasFault .currentDirectory ⟨"."⟩ then .error .injected else .ok m.current

end Memory

end BuildEngine
