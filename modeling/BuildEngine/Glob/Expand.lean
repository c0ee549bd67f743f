import BuildEngine.FileSystem.Basic
import BuildEngine.Glob.Basic

/-!
# Files that match a wildcard

A pattern is expanded by listing the files below its fixed front and keeping those that match.
-/

namespace BuildEngine

/-- A file that matched a pattern. -/
structure GlobMatch where
  /-- The file as an item names it: seen from the base directory unless the pattern is
  absolute. -/
  identity : String
  /-- The directories between the fixed front of the pattern and the file, with a separator at
  the end, or nothing. -/
  recursiveDir : String
deriving DecidableEq, Repr

namespace Glob

/-- The segments of a pattern in front of the first one with a wildcard. -/
def fixedFront (pattern : String) : String :=
  String.ofList <| List.intercalate ['/'] <|
    ((unifySeparators pattern.toList).splitOn '/').takeWhile fun s => !hasWildcard s

/-- The text of a path with separators of one kind. -/
def unified (p : Path) : String :=
  String.ofList (unifySeparators p.text.toList)

/-- The match of a file below `root`. -/
def matchOf (base root : Path) (isAbsolute : Bool) (file : Path) : GlobMatch :=
  let identity := if isAbsolute then unified file else unified ((file.stripPrefix? base).getD file)
  let folder := (file.parent?.bind (·.stripPrefix? root)).map unified
  { identity
    recursiveDir :=
      match folder with
      | none | some "" => ""
      | some dir => dir ++ "/" }

/-- The files that match a pattern, in the order of the file system. Where files cannot be
listed there are no matches. -/
def expand (files : FileSystem) (base : Path) (pattern : String) : List GlobMatch :=
  let root := base.absolutize ⟨fixedFront pattern⟩
  let ts := tokens (fullChars base pattern)
  match files.filesBelow root with
  | .error _ => []
  | .ok found =>
    (found.filter fun f => tokensMatch ts (unifySeparators f.text.toList)).map
      (matchOf base root (Path.mk pattern).isAbsolute)

end Glob

end BuildEngine
