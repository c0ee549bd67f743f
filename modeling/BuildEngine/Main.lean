import BuildEngine.CommandLine.Program
import BuildEngine.CommandLine.Usage
import BuildEngine.FileSystem.Changes

/-!
# The command line

The outer layer of the program. It takes a picture of the directories that a command may look at,
runs the command on that picture, and then makes the same changes to the real files. The processes
of a build run on the standard host.
-/

namespace BuildEngine.Outer

/-- The names on the way to an absolute path. -/
def placeOf (path : String) : List String :=
  (path.splitOn "/").filter (· ≠ "")

/-- The absolute path of a place. -/
def textOf (place : List String) : String :=
  "/" ++ String.intercalate "/" place

/-- A time in nanoseconds. -/
def nanoseconds (time : IO.FS.SystemTime) : Nat :=
  time.sec.toNat * 1000000000 + time.nsec.toNat

/-- The nodes at and below an entry of a directory. Links and whatever cannot be read are left
out. -/
partial def tree (place : List String) (entry : IO.FS.DirEntry) :
    IO (List (List String × DiskNode)) := do
  try
    let metadata ← entry.path.symlinkMetadata
    let modified := nanoseconds metadata.modified
    match metadata.type with
    | .file => return [(place, .file (← IO.FS.readBinFile entry.path).toList modified)]
    | .dir =>
      let below ← (← entry.path.readDir).toList.mapM fun e => tree (place ++ [e.fileName]) e
      return (place, .folder modified) :: below.flatten
    | _ => return []
  catch _ => return []

/-- The nodes at and below a place, and the directories above it. -/
def treeAt (place : List String) : IO (List (List String × DiskNode)) := do
  let above := (List.range place.length).tail.map fun n => (place.take n, DiskNode.folder 0)
  return above ++ (← tree place ⟨textOf place.dropLast, place.getLast?.getD ""⟩)

/-- A disk with some nodes; of two at one place the later one counts. -/
def diskOf (current : String) (nodes : List (List String × DiskNode)) : Disk :=
  let sorted := nodes.mergeSort fun a b => !decide (b.1 < a.1)
  let nodes := sorted.foldr
    (fun n rest => if (rest.head?.map Prod.fst) = some n.1 then rest else n :: rest) []
  { nodes, current := ⟨current⟩, clock := nodes.foldl (fun t n => max t n.2.modified) 0 }

/-- The variables of the process. -/
def processVariables : IO Variables := do
  let bytes ← IO.FS.readBinFile "/proc/self/environ"
  return ((Text.decodeLossy bytes.toList).splitOn "\x00").filterMap fun text =>
    match text.splitOn "=" with
    | name :: value => if name = "" then none else some (name, String.intercalate "=" value)
    | [] => none

/-- The number of processors. -/
def processors : IO Nat := do
  let text ← IO.FS.readFile "/proc/cpuinfo"
  return max 1 ((text.splitOn "\n").countP fun line => line.startsWith "processor")

/-- The directory above a place, from where a project sees its neighbours; the root is too much
to look at. -/
def vicinity (place : List String) : List String :=
  if place.length ≤ 1 then place else place.dropLast

/-- The places that arguments make a command look at. -/
def placesOf (current : Path) (arguments : List String) : List (List String) :=
  vicinity (placeOf current.text) ::
    (arguments.filter fun a => !a.startsWith "-").map fun a =>
      vicinity (placeOf (current.absolutize ⟨a⟩).text).dropLast

/-- Leaves out the places that lie below another one. -/
def outermost (places : List (List String)) : List (List String) :=
  (places.eraseDups.filter fun p => p ≠ [] && !places.any fun q =>
    q ≠ [] && q.isPrefixOf p && q ≠ p)

/-- The machine that a command with some arguments runs on. -/
def machine (arguments : List String) : IO Machine := do
  let current := (← IO.currentDir).toString
  let vars ← processVariables
  let look (places : List (List String)) : IO Disk := do
    let trees ← (outermost places).mapM treeAt
    return diskOf current (trees.flatten ++ Host.standardDisk.nodes).reverse
  let places := placesOf ⟨current⟩ arguments ++
    [placeOf (UserFolder.configuration vars).text]
  let disk ← look places
  let template := match UserFolder.loadSettings vars disk with
    | .ok (s, _) => s.cacheFolder
    | .error _ => none
  let disk ← match UserFolder.projectCache vars template with
    | .ok folder => look (placeOf folder.text :: places)
    | .error _ => pure disk
  return { disk, caches := [], vars, processors := ← processors, host := .standard }

/-- Makes a change to the real files. -/
def apply : DiskChange → IO Unit
  | .makeFolder place => IO.FS.createDirAll (textOf place)
  | .write place contents => IO.FS.writeBinFile (textOf place) ⟨contents.toArray⟩
  | .remove place => IO.FS.removeFile (textOf place)

end BuildEngine.Outer

/-- Runs the program with its arguments and ends with its exit code. -/
def main (arguments : List String) : IO UInt32 := do
  let before ← BuildEngine.Outer.machine arguments
  let (after, outcome) := BuildEngine.Program.run before arguments
  (before.disk.changesTo after.disk).forM BuildEngine.Outer.apply
  match outcome with
  | .finished console code =>
    IO.print console.standard
    IO.eprint console.diagnostics
    return code.toUInt32
  | .usage reason =>
    if reason.exitCode = 0 then IO.print reason.report else IO.eprint reason.report
    return reason.exitCode.toUInt32
