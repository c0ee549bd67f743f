import BuildEngine.Build.TaskError

/-!
# Resolving references

A reference names a library, and resolving it finds the file. A hint in its metadata is the only
place looked at if there is one. Otherwise a name that already ends like a library or a program is
looked for as it is, first from the directory of the project and then in the search directories;
any other name is looked for in the search directories with either ending.
-/

namespace BuildEngine.Site

/-- The metadata that tells where a reference lies. -/
def hintPath : String := "HintPath"

/-- The output that names the resolved files. -/
def resolvedFiles : String := "ResolvedFiles"

/-- Whether a name ends like a library or a program. -/
def isBinaryName (name : String) : Bool :=
  match (Path.mk name).extension? with
  | some e => Text.sameFolded e "dll" || Text.sameFolded e "exe"
  | none => false

/-- The file names that a reference may have. -/
def referenceNames (name : String) : List String :=
  if isBinaryName name then [name] else [name ++ ".dll", name ++ ".exe"]

/-- The places of a reference, in the order they are tried. -/
def candidates (site : Site) (reference : Item) (folders : List Path) : List Path :=
  let hint := Text.trim (reference.metadataValue site.base hintPath)
  if hint ≠ "" then [site.fullPath hint]
  else
    (if isBinaryName reference.identity then [site.fullPath reference.identity] else []) ++
      folders.flatMap fun folder =>
        (referenceNames reference.identity).map fun name => folder.join ⟨name⟩

/-- Resolves references in order; yields the items of those that were found. -/
def resolveAll (site : Site) (folders : List Path) (type : String) (s : Session) :
    List Item → Session × List Item
  | [] => (s, [])
  | reference :: rest =>
    match (site.candidates reference folders).find? fun p => s.workspace.files.isFile p with
    | some path =>
      let s := site.say s .low
        ("Resolved '" ++ reference.identity ++ "' to '" ++ path.text ++ "'.")
      let (s, items) := resolveAll site folders type s rest
      (s, { type, identity := path.text, metadata := reference.metadata } :: items)
    | none =>
      resolveAll site folders type
        (site.warn s ("Could not resolve reference '" ++ reference.identity ++ "'.")) rest

/-- Resolves references, adding the items found. -/
def resolveReferences (site : Site) (s : Session) (references : Expr) (searchPaths : Option Expr)
    (outputItem : String) : TaskResult :=
  withValue s (references.evaluateItems (site.context s) "Reference") fun references =>
    withValue s (site.entriesOf s searchPaths) fun folders =>
      let (s, items) := site.resolveAll (folders.map site.fullPath) outputItem s references
      let s := { s with environment := items.foldl Environment.addItem s.environment }
      (s.setOutput resolvedFiles (Text.joinEntries (items.map Item.identity)), .ok ())

end BuildEngine.Site
