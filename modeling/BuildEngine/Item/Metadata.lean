import BuildEngine.Item.Basic
import BuildEngine.Path.Normal
import BuildEngine.Text.Fold

/-!
# Metadata of items

Eight names are well known: their values are computed from the identity, read as a path. Every
other value comes from the metadata that the item carries, and what nobody defined is empty.
-/

namespace BuildEngine

/-- The names whose values are computed. -/
inductive WellKnown where
  | identity
  | fullPath
  | filename
  | extension
  | relativeDir
  | rootDir
  | directory
  | recursiveDir
deriving DecidableEq, Repr

namespace WellKnown

/-- The written name. -/
def name : WellKnown → String
  | identity => "Identity"
  | fullPath => "FullPath"
  | filename => "Filename"
  | extension => "Extension"
  | relativeDir => "RelativeDir"
  | rootDir => "RootDir"
  | directory => "Directory"
  | recursiveDir => "RecursiveDir"

/-- All well-known names. -/
def all : List WellKnown :=
  [identity, fullPath, filename, extension, relativeDir, rootDir, directory, recursiveDir]

/-- The well-known name that a text spells in any case of letters. -/
def ofName? (s : String) : Option WellKnown :=
  all.find? fun w => Text.sameFolded s w.name

end WellKnown

namespace Item

/-- The characters up to and with the last separator of either kind. -/
def upToSeparator (cs : List Char) : List Char :=
  (cs.reverse.dropWhile fun c => c ≠ '/' && c ≠ '\\').reverse

/-- The root of a path, if it has one. -/
def rootText (full : Path) : String :=
  if full.isAbsolute then "/" else ""

/-- The directory of a path without its root, with a separator at the end. -/
def directoryText (full : Path) : String :=
  let names := (full.parent?.getD full).components.filterMap fun
    | .name s => some s
    | _ => none
  if names = [] then "" else String.intercalate "/" names ++ "/"

/-- The value of a well-known name, for an item of a project in the directory `base`. -/
def wellKnown (i : Item) (base : Path) : WellKnown → String
  | .identity => i.identity
  | .fullPath => (base.absolutize ⟨i.identity⟩).text
  | .filename => (Path.mk i.identity).fileStem?.getD ""
  | .extension =>
    match (Path.mk i.identity).extension? with
    | some e => "." ++ e
    | none => ""
  | .relativeDir => String.ofList (upToSeparator i.identity.toList)
  | .rootDir => rootText (base.absolutize ⟨i.identity⟩)
  | .directory => directoryText (base.absolutize ⟨i.identity⟩)
  | .recursiveDir => (i.metadata.get? WellKnown.recursiveDir.name).getD ""

/-- The value of any name, for an item of a project in the directory `base`. -/
def metadataValue (i : Item) (base : Path) (name : String) : String :=
  match WellKnown.ofName? name with
  | some w => i.wellKnown base w
  | none => (i.metadata.get? name).getD ""

end Item

end BuildEngine
