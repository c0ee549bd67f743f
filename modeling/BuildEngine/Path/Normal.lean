import BuildEngine.Path.Basic

/-!
# Lexical normal form of paths

A path is normalized by its text alone: `.` goes away and `..` takes away the name before it.
At the root `..` goes nowhere; at the front of a path without a root it stays.
-/

namespace BuildEngine.Path

/-- Takes one more component onto the normal components so far, the last of which is in
front. -/
def pushNormal (rooted : Bool) (taken : List Component) : Component → List Component
  | .root | .here => taken
  | .up =>
    match taken with
    | .name _ :: rest => rest
    | _ => if rooted then taken else .up :: taken
  | .name s => .name s :: taken

/-- The components of the normal form behind the root. -/
def normalNames (rooted : Bool) (components : List Component) : List Component :=
  (components.foldl (pushNormal rooted) []).reverse

/-- The path of components, with the root in front if there is one. -/
def ofNames (rooted : Bool) (components : List Component) : Path :=
  ⟨(if rooted then "/" else "") ++ String.intercalate "/" (components.map Component.text)⟩

/-- The normal form of a path. -/
def normalize (p : Path) : Path :=
  ofNames p.isAbsolute (normalNames p.isAbsolute p.components)

/-- The normal form of `p` as seen from `base`. -/
def absolutize (base p : Path) : Path :=
  (base.join p).normalize

end BuildEngine.Path
