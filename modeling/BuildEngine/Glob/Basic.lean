import BuildEngine.Path.Normal

/-!
# File wildcards

A pattern is a path in which `?` stands for one character of a name, `*` for any part of a name,
`**/` for any number of directories, and `**` elsewhere for any text of one line. All other
characters stand for themselves. Matching is decided for all tails of a text at once, from the
end of the pattern to its beginning, so its cost grows with the product of both lengths.
-/

namespace BuildEngine

/-- A piece of a pattern. -/
inductive GlobToken where
  /-- The character itself. -/
  | literal (c : Char)
  /-- One character that is no separator. -/
  | anyChar
  /-- Any characters that are no separators. -/
  | anyName
  /-- Nothing, or any text that ends in a separator. -/
  | anyFolders
  /-- Any text without a line feed. -/
  | anyText
deriving DecidableEq, Repr

namespace Glob

/-- The pieces of a pattern. Of several stars in a row two are taken together first. -/
def tokens : List Char → List GlobToken
  | [] => []
  | '*' :: '*' :: '/' :: rest => .anyFolders :: tokens rest
  | '*' :: '*' :: rest => .anyText :: tokens rest
  | '*' :: rest => .anyName :: tokens rest
  | '?' :: rest => .anyChar :: tokens rest
  | c :: rest => .literal c :: tokens rest

/-- For every tail of the characters, whether it has a separator behind which the rest matches;
`rest` tells for every tail whether the rest of the pattern matches it. -/
def behindSeparator : List Char → List Bool → List Bool
  | c :: cs, _ :: rest =>
    let later := behindSeparator cs rest
    (c = '/' && rest.headD false || later.headD false) :: later
  | _, _ => [false]

/-- For every tail of the characters, whether some of its front, all of it allowed, can be left
out so that the rest matches. -/
def skipping (allowed : Char → Bool) : List Char → List Bool → List Bool
  | c :: cs, here :: rest =>
    let later := skipping allowed cs rest
    (here || allowed c && later.headD false) :: later
  | _, rest => rest

/-- For every tail of the characters, whether its first one is allowed and the rest matches. -/
def consuming (allowed : Char → Bool) : List Char → List Bool → List Bool
  | c :: cs, _ :: rest =>
    (allowed c && rest.headD false) :: consuming allowed cs rest
  | _, _ => [false]

/-- For every tail of the characters, whether a piece and then the rest match it. -/
def tokenRow (t : GlobToken) (cs : List Char) (rest : List Bool) : List Bool :=
  match t with
  | .literal c => consuming (· = c) cs rest
  | .anyChar => consuming (· ≠ '/') cs rest
  | .anyName => skipping (· ≠ '/') cs rest
  | .anyText => skipping (· ≠ '\n') cs rest
  -- The rest may match here, or behind any separator further on.
  | .anyFolders => List.zipWith or rest (behindSeparator cs rest)

/-- For every tail of the characters, whether it is empty. -/
def emptyRow : List Char → List Bool
  | [] => [true]
  | _ :: cs => false :: emptyRow cs

/-- For every tail of the characters, whether the pieces match it. -/
def row (ts : List GlobToken) (cs : List Char) : List Bool :=
  ts.foldr (fun t rest => tokenRow t cs rest) (emptyRow cs)

/-- Whether the pieces match the characters from the first to the last. -/
def tokensMatch (ts : List GlobToken) (cs : List Char) : Bool :=
  (row ts cs).headD false

/-- Whether a text contains a wildcard. -/
def hasWildcard (cs : List Char) : Bool :=
  cs.any fun c => c = '*' || c = '?'

/-- A text in which backslashes have become separators. -/
def unifySeparators (cs : List Char) : List Char :=
  cs.map fun c => if c = '\\' then '/' else c

/-- The normal form that patterns and candidates are compared in. -/
def fullChars (base : Path) (text : String) : List Char :=
  unifySeparators (base.absolutize ⟨text⟩).text.toList

/-- Whether a candidate matches a pattern. A pattern without wildcards names one place. -/
def matchesPattern (base : Path) (pattern candidate : String) : Bool :=
  if hasWildcard pattern.toList then
    tokensMatch (tokens (fullChars base pattern)) (fullChars base candidate)
  else fullChars base candidate = fullChars base pattern

end Glob

end BuildEngine
