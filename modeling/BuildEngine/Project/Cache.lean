import BuildEngine.Digest.Blake3
import BuildEngine.Project.Reading

/-!
# Project cache

Projects that were read before, by a key made from their path and contents. An entry is used only
if it belongs to the very path that is loaded, and an entry that cannot be used is replaced: the
cache never changes what loading yields.
-/

namespace BuildEngine

/-- The contents of an entry. -/
inductive CacheEntry where
  /-- A project that was written. -/
  | project (p : Project)
  /-- Bytes that are no project. -/
  | junk (bytes : Text.Bytes)
deriving DecidableEq, Repr

/-- Why an entry cannot be used. -/
inductive CacheError where
  /-- The entry has no contents. -/
  | empty
  /-- The entry is no project. -/
  | corrupt
deriving DecidableEq, Repr

/-- The files of a cache directory. -/
structure ProjectCache where
  /-- The files by their names. -/
  files : List (String × CacheEntry)
deriving DecidableEq, Repr

namespace ProjectCache

/-- A cache without files. -/
def empty : ProjectCache :=
  ⟨[]⟩

/-- The version of the program, which entries of another version do not outlive. -/
def version : String := "0.1.0"

/-- The bytes that a key is made from. -/
def keyInput (file : Path) (contents : Text.Bytes) : Text.Bytes :=
  Text.encode version ++ 0 :: Text.encode file.text ++ 0 :: contents

/-- The key of a project file with its contents. -/
def keyFor (file : Path) (contents : Text.Bytes) : String :=
  Blake3.hex ((Blake3.hash (keyInput file contents)).take 16)

/-- The name of the file that holds an entry. -/
def fileName (key : String) : String :=
  key ++ ".bin"

/-- The contents of a file of the cache. -/
def find? (c : ProjectCache) (name : String) : Option CacheEntry :=
  (c.files.find? fun f => f.1 = name).map Prod.snd

/-- Writes a file of the cache. -/
def put (c : ProjectCache) (name : String) (entry : CacheEntry) : ProjectCache :=
  ⟨(name, entry) :: c.files.filter fun f => f.1 ≠ name⟩

/-- The project of a key, if there is an entry. -/
def read (c : ProjectCache) (key : String) : Except CacheError (Option Project) :=
  match c.find? (fileName key) with
  | none => .ok none
  | some (.project p) => .ok (some p)
  | some (.junk []) => .error .empty
  | some (.junk _) => .error .corrupt

/-- Writes the project of a key. -/
def write (c : ProjectCache) (key : String) (p : Project) : ProjectCache :=
  c.put (fileName key) (.project p)

/-- Whether a file of the cache is an entry. -/
def isEntry (name : String) : Bool :=
  (Path.mk name).extension? = some "bin"

/-- Deletes every entry and tells how many there were. -/
def clear (c : ProjectCache) : ProjectCache × Nat :=
  (⟨c.files.filter fun f => !isEntry f.1⟩, (c.files.filter fun f => isEntry f.1).length)

/-- The project of a key if it belongs to a path. -/
def hit? (c : ProjectCache) (key : String) (file : Path) : Option Project :=
  match c.read key with
  | .ok (some p) => if p.file.same file then some p else none
  | _ => none

/-- Loads the project of a file, from the cache if it is there, and into it if it is not. -/
def load (c : ProjectCache) (files : FileSystem) (file : Path) :
    Except LoadError Project × ProjectCache :=
  let file := file.normalize
  match Project.readFile files file with
  | .error e => (.error e, c)
  | .ok contents =>
    let key := keyFor file (Text.encode contents)
    match c.hit? key file with
    | some p => (.ok p, c)
    | none =>
      match Project.ofText file contents with
      | .ok p => (.ok p, c.write key p)
      | .error e => (.error e, c)

end ProjectCache

end BuildEngine
