import BuildEngine.Expr.Basic
import BuildEngine.Path.Basic
import BuildEngine.Text.Fold

/-!
# Projects

A project file as it is understood: groups of properties and items, and targets made of tasks,
with every expression already read and normalized.
-/

namespace BuildEngine

/-- A property and the value it gets. -/
structure Property where
  /-- The name of the property. -/
  name : String
  /-- What is evaluated to its value. -/
  value : Expr
  /-- When the property is set. -/
  condition : Option Expr
deriving DecidableEq, Repr

/-- Properties set under one condition. -/
structure PropertyGroup where
  /-- When the group counts. -/
  condition : Option Expr
  /-- The properties, in order. -/
  properties : List Property
deriving DecidableEq, Repr

/-- What an item definition does. -/
inductive ItemAction where
  /-- Adds items, without those that are excluded, and gives them metadata. -/
  | add (items : Expr) (except : Option Expr) (metadata : List (String × Expr))
  /-- Removes the items that match. -/
  | remove (patterns : Expr)
deriving DecidableEq, Repr

/-- A definition of items of one type. -/
structure ItemDefinition where
  /-- The type of the items. -/
  type : String
  /-- What is done. -/
  action : ItemAction
  /-- When it is done. -/
  condition : Option Expr
deriving DecidableEq, Repr

/-- Item definitions under one condition. -/
structure ItemGroup where
  /-- When the group counts. -/
  condition : Option Expr
  /-- The definitions, in order. -/
  items : List ItemDefinition
deriving DecidableEq, Repr

/-- How important a message is. -/
inductive Importance where
  | low
  | normal
  | high
deriving DecidableEq, Repr

/-- What a compiler is asked for. -/
structure CompileTask where
  /-- The source files. -/
  sources : Expr
  /-- The libraries to refer to. -/
  references : Option Expr
  /-- The files to embed. -/
  resources : Option Expr
  /-- The file to write. -/
  outputAssembly : Expr
  /-- The kind of file to write. -/
  targetType : Option Expr
  /-- The constants to define. -/
  defineConstants : Option Expr
  /-- Flags for the compiler as they are. -/
  additionalFlags : Option Expr
deriving DecidableEq, Repr

/-- The tasks. -/
inductive Task where
  | message (text : Expr) (importance : Importance)
  | error (text : Expr)
  | warning (text : Expr)
  | setProperties (properties : List Property)
  | setItems (items : List ItemDefinition)
  | copy (sources : Expr) (files folder : Option Expr) (skipUnchanged : Bool)
  | delete (files : Expr)
  | execute (command : Expr) (workingDirectory : Option Expr) (ignoreExitCode : Bool)
  | compile (request : CompileTask)
  | resolveReferences (references : Expr) (searchPaths : Option Expr) (outputItem : String)
  | output (parameter : String) (property item : Option String)
deriving DecidableEq, Repr

/-- A task with its condition. -/
structure TaskNode where
  /-- When the task runs. -/
  condition : Option Expr
  /-- What it does. -/
  task : Task
deriving DecidableEq, Repr

/-- A named sequence of tasks. -/
structure Target where
  /-- The name of the target. -/
  name : String
  /-- When the target runs. -/
  condition : Option Expr
  /-- The targets that have to run before. -/
  dependsOn : Option Expr
  /-- The files the target reads. -/
  inputs : Option Expr
  /-- The files the target writes. -/
  outputs : Option Expr
  /-- The tasks, in order. -/
  tasks : List TaskNode
deriving DecidableEq, Repr

/-- A project file that has been read. -/
structure Project where
  /-- The file of the project. -/
  file : Path
  /-- The targets that are built when none is asked for. -/
  defaultTargets : Option Expr
  /-- The property groups, in order. -/
  propertyGroups : List PropertyGroup
  /-- The item groups, in order. -/
  itemGroups : List ItemGroup
  /-- The targets, in order. -/
  targets : List Target
deriving DecidableEq, Repr

namespace Project

/-- The ending of project file names. -/
def fileSuffix : String := ".keel.toml"

/-- A name without the ending of project files, if it has it. -/
def stripSuffix? (name : String) : Option String :=
  let cs := name.toList
  let suffix := fileSuffix.toList
  if suffix.isSuffixOf cs then some (String.ofList (cs.take (cs.length - suffix.length)))
  else none

/-- The name of the project file without its directory. -/
def fileName (p : Project) : String :=
  p.file.fileName?.getD ""

/-- The name of the project: its file name without the ending of project files, or else without
its extension. -/
def name (p : Project) : String :=
  (stripSuffix? p.fileName).getD ((p.file.fileStem?).getD p.fileName)

/-- The directory of the project file, which relative paths start from. -/
def directory (p : Project) : Path :=
  p.file.parent?.getD ⟨""⟩

/-- A place among the targets of a project. -/
abbrev TargetIndex (p : Project) := Fin p.targets.length

/-- The first target with a name, whatever the case of its letters. -/
def findTarget? (p : Project) (name : String) : Option p.TargetIndex :=
  p.targets.findFinIdx? fun t => Text.sameFolded t.name name

/-- The target at a place. -/
def target (p : Project) (i : p.TargetIndex) : Target :=
  p.targets[i]

/-- The number of the first target with a name; targets are numbered from 0. -/
def targetIndex? (p : Project) (name : String) : Option Nat :=
  (p.findTarget? name).map Fin.val

end Project

end BuildEngine
