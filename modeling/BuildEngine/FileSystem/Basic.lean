import BuildEngine.FileSystem.Disk
import BuildEngine.FileSystem.Memory

/-!
# File systems

What evaluation and tasks need from files, on a disk or in memory. An operation that changes
files returns the changed file system.
-/

namespace BuildEngine

/-- Files in memory or on a disk. -/
inductive FileSystem where
  | memory (files : Memory)
  | disk (files : Disk)
deriving DecidableEq, Repr

namespace FileSystem

/-- Whether a file or directory is at a path. -/
def isThere : FileSystem → Path → Bool
  | memory m, p => m.isThere p
  | disk d, p => d.isThere p

/-- Whether a path is a file. -/
def isFile : FileSystem → Path → Bool
  | memory m, p => m.isFile p
  | disk d, p => d.isFile p

/-- The contents of a file. -/
def read : FileSystem → Path → Except FileError Text.Bytes
  | memory m, p => m.read p
  | disk d, p => d.read p

/-- The contents of a file as text. -/
def readText (fs : FileSystem) (p : Path) : Except FileError String := do
  (Text.decode (← fs.read p)).mapError .notText

/-- Writes a file, making the directories that are missing. -/
def write : FileSystem → Path → Text.Bytes → Except FileError FileSystem
  | memory m, p, contents => .ok (memory (m.write p contents))
  | disk d, p, contents => (d.write p contents).map disk

/-- Copies a file, making the directories that are missing. -/
def copy : FileSystem → Path → Path → Except FileError FileSystem
  | memory m, source, destination => (m.copy source destination).map memory
  | disk d, source, destination => (d.copy source destination).map disk

/-- Deletes a file. -/
def delete : FileSystem → Path → Except FileError FileSystem
  | memory m, p => (m.delete p).map memory
  | disk d, p => (d.delete p).map disk

/-- The time of the last write. -/
def modified : FileSystem → Path → Except FileError Nat
  | memory m, p => m.modified p
  | disk d, p => d.modified p

/-- The files below a path, in order. -/
def filesBelow : FileSystem → Path → Except FileError (List Path)
  | memory m, root => m.filesBelow root
  | disk d, root => .ok (d.filesBelow root)

/-- How many files there are. -/
def fileCount : FileSystem → Nat
  | memory m => m.files.length
  | disk d => d.nodes.length

/-- The current directory; that of a disk is seen from the root. -/
def currentDirectory : FileSystem → Except FileError Path
  | memory m => m.currentDirectory
  | disk d => .ok (Path.join ⟨"/"⟩ d.current)

end FileSystem

end BuildEngine
