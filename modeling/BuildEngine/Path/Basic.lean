/-!
# Paths

A path is a text whose segments are separated by `/`. Two paths name the same place when their
components agree; the text a path was made from is kept, because that is what is shown.

* An empty segment says nothing, except that one in front of the first `/` marks the root.
* The segment `.` says nothing, except at the very beginning of a path without a root.
* The segment `..` is a component of its own: nothing is resolved here.
-/

namespace BuildEngine

/-- One step of a path. -/
inductive Component where
  | root
  | here
  | up
  | name (text : String)
deriving DecidableEq, Repr

namespace Component

/-- The place of a kind of component in the order of components. -/
def rank : Component → Nat
  | root => 0
  | here => 1
  | up => 2
  | name _ => 3

/-- The order of components: the root, `.`, `..`, then names by their characters. -/
def order : Component → Component → Ordering
  | name s, name t => compare s t
  | c, d => compare c.rank d.rank

/-- The segment that a component is written as. -/
def text : Component → String
  | root => ""
  | here => "."
  | up => ".."
  | name s => s

end Component

/-- A path, as the text it was made from. -/
structure Path where
  /-- The text of the path. -/
  text : String
deriving DecidableEq, Repr, Inhabited

namespace Path

instance : ToString Path := ⟨text⟩

/-- The segments between the separators. -/
def segments (p : Path) : List (List Char) :=
  p.text.toList.splitOn '/'

/-- The component that a segment stands for, if any; `first` tells whether it is the first
segment of the path. -/
def component? (first : Bool) (segment : List Char) : Option Component :=
  if segment = [] then none
  else if segment = ['.'] then if first then some .here else none
  else if segment = ['.', '.'] then some .up
  else some (.name (String.ofList segment))

/-- Whether a path starts at the root. -/
def isAbsolute (p : Path) : Bool :=
  p.text.toList.head? = some '/'

/-- The components of a path, which are what makes two paths the same. -/
def components (p : Path) : List Component :=
  if p.isAbsolute then .root :: p.segments.filterMap (component? false)
  else
    match p.segments with
    | [] => []
    | first :: more => (component? true first).toList ++ more.filterMap (component? false)

/-- Whether two paths name the same place. -/
def same (p q : Path) : Bool :=
  p.components = q.components

/-- The order of component lists: the first difference decides, and a shorter list comes
first. -/
def orderComponents : List Component → List Component → Ordering
  | [], [] => .eq
  | [], _ :: _ => .lt
  | _ :: _, [] => .gt
  | c :: cs, d :: ds => (c.order d).then (orderComponents cs ds)

/-- The order of paths, component by component. -/
def order (p q : Path) : Ordering :=
  orderComponents p.components q.components

/-- Whether the components of `q` begin those of `p`. -/
def startsWith (p q : Path) : Bool :=
  q.components.isPrefixOf p.components

/-- The path `q` as seen from `p`: an absolute path stands for itself. -/
def join (p q : Path) : Path :=
  if q.isAbsolute then q
  else if p.text = "" ∨ p.text.toList.getLast? = some '/' then ⟨p.text ++ q.text⟩
  else ⟨p.text ++ "/" ++ q.text⟩

/-- A segment that stands for no component. -/
def isVoid (segment : List Char) : Bool :=
  segment = [] || segment = ['.']

/-- The text of segments, as a path. -/
def ofSegments (segments : List (List Char)) : Path :=
  ⟨String.ofList (List.intercalate ['/'] segments)⟩

/-- Segments without the ones at the end that stand for nothing. -/
def dropVoidEnd (segments : List (List Char)) : List (List Char) :=
  (segments.reverse.dropWhile isVoid).reverse

/-- The segments of a path behind the mark of its root or the leading `.`, and that mark. -/
def splitHead (p : Path) : Option (List Char) × List (List Char) :=
  match p.segments with
  | [] :: more => if p.isAbsolute then (some [], more) else (none, more)
  | ['.'] :: more => (some ['.'], more)
  | segments => (none, segments)

/-- The path of a head and segments, without separators at the end. -/
def ofHead (head : Option (List Char)) (segments : List (List Char)) : Path :=
  match head, dropVoidEnd segments with
  | none, kept => ofSegments kept
  | some [], [] => ⟨"/"⟩
  | some mark, kept => ofSegments (mark :: kept)

/-- The path without its last component. -/
def parent? (p : Path) : Option Path :=
  match p.splitHead with
  | (head, segments) =>
    match dropVoidEnd segments with
    -- Above `.` is the empty path; above the root there is nothing.
    | [] => if head = some ['.'] then some ⟨""⟩ else none
    | kept => some (ofHead head kept.dropLast)

/-- The name at the end of a path, if its last component is a name. -/
def fileName? (p : Path) : Option String :=
  match p.components.getLast? with
  | some (.name s) => some s
  | _ => none

/-- A file name cut at its last dot; a dot in front does not count. -/
def splitExtension (name : List Char) : List Char × Option (List Char) :=
  match (name.reverse.span (· ≠ '.')) with
  | (_, []) => (name, none)
  -- A name such as `.profile` has no extension.
  | (ext, _ :: stem) => if stem = [] then (name, none) else (stem.reverse, some ext.reverse)

/-- The file name without its extension. -/
def fileStem? (p : Path) : Option String :=
  p.fileName?.map fun s => String.ofList (splitExtension s.toList).1

/-- What follows the last dot of the file name. -/
def extension? (p : Path) : Option String :=
  p.fileName?.bind fun s => (splitExtension s.toList).2.map String.ofList

/-- Segments behind the first `n` that stand for a component. -/
def dropComponents : Nat → List (List Char) → List (List Char)
  | 0, segments => segments.dropWhile isVoid
  | _ + 1, [] => []
  | n + 1, s :: segments =>
    if isVoid s then dropComponents (n + 1) segments else dropComponents n segments

/-- The rest of `p` behind `q`, if the components of `q` begin those of `p`. -/
def stripPrefix? (p q : Path) : Option Path :=
  if p.startsWith q then
    match p.splitHead, q.components.length with
    | (head, segments), 0 => some (ofHead head segments)
    | (some _, segments), n + 1 => some (ofSegments (dropVoidEnd (dropComponents n segments)))
    | (none, segments), n => some (ofSegments (dropVoidEnd (dropComponents n segments)))
  else none

end Path

end BuildEngine
