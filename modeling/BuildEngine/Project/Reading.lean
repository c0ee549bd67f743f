import BuildEngine.Bindings
import BuildEngine.Expr.Normalize
import BuildEngine.Expr.Parser
import BuildEngine.FileSystem.Basic
import BuildEngine.Path.Normal
import BuildEngine.Project.Basic
import BuildEngine.Toml.Fields

/-!
# Reading project files

A project file is read in two steps. First its shape is checked: the file must be TOML, and every
table must have the fields of its kind. Then the texts in it are read as expressions, in the
order property groups, item groups, targets, default targets. A fault of the first kind anywhere
is reported before any of the second.
-/

namespace BuildEngine

/-- Why a project file cannot be loaded. -/
inductive LoadError where
  /-- The file cannot be read. -/
  | unreadable (file : Path) (reason : FileError)
  /-- The file is no TOML, or not of the right shape. -/
  | malformed (file : Path) (reason : Toml.Error)
  /-- A text in the file is no expression. -/
  | badExpression (file : Path) (location text : String) (reason : ParseError)
  /-- An item definition makes no sense. -/
  | badItem (file : Path) (location reason : String)
deriving DecidableEq, Repr

namespace LoadError

/-- The message of a load error. -/
def message : LoadError → String
  | unreadable file reason =>
    "Could not read project file '" ++ file.text ++ "': " ++ reason.message
  | malformed file reason =>
    "Failed to parse TOML file at '" ++ file.text ++ "': " ++ reason.message
  | badExpression file location text reason =>
    "Invalid expression in '" ++ file.text ++ "' (" ++ location ++ "): \"" ++ text ++ "\": " ++
      reason.message
  | badItem file location reason =>
    "Invalid item in '" ++ file.text ++ "' (" ++ location ++ "): " ++ reason

/-- The messages of the errors behind a load error. -/
def causes : LoadError → List String
  | unreadable _ reason => [reason.message]
  | malformed _ reason => [reason.message]
  | badExpression _ _ _ reason => [reason.message]
  | badItem .. => []

end LoadError

namespace Project

open Toml (Entries)

/-- Reads the text of a value at a place in a file. -/
def readValue (file : Path) (location text : String) : Except LoadError Expr :=
  ((Expr.ofValueText text).map Expr.normalize).mapError (.badExpression file location text)

/-- Reads the text of a condition at a place in a file. -/
def readCondition (file : Path) (location text : String) : Except LoadError Expr :=
  ((Expr.ofText text).map Expr.normalize).mapError (.badExpression file location text)

/-- Reads a value that may be absent. -/
def readValue? (file : Path) (location : String) (text : Option String) :
    Except LoadError (Option Expr) :=
  text.mapM (readValue file location)

/-- Reads a condition that may be absent; a blank one counts as absent. -/
def readCondition? (file : Path) (location : String) (text : Option String) :
    Except LoadError (Option Expr) :=
  (text.filter fun t => Text.trim t ≠ "").mapM (readCondition file location)

/-- Reads tables one after the other; they are numbered from 1. -/
def readEach {α : Type} (tables : List Entries)
    (read : Nat → Entries → Except Toml.Error (Except LoadError α)) :
    Except Toml.Error (Except LoadError (List α)) := do
  let found ← tables.zipIdx.mapM fun (t, i) => read (i + 1) t
  return found.mapM id

/-- Reads a property definition. -/
def readProperty (file : Path) (location : String) (entries : Entries) :
    Except Toml.Error (Except LoadError Property) := do
  let name ← Toml.Fields.text entries "name"
  let value ← Toml.Fields.textD entries "value"
  let condition ← Toml.Fields.text? entries "condition"
  return do
    let here := location ++ " property '" ++ name ++ "'"
    let value ← readValue file here value
    let condition ← readCondition? file here condition
    return { name, value, condition }

/-- Reads property definitions. -/
def readProperties (file : Path) (location : String) (entries : Entries) :
    Except Toml.Error (Except LoadError (List Property)) := do
  let records ← Toml.Fields.records entries "property" ["name", "value", "condition"]
  readEach records fun _ => readProperty file location

/-- Reads a property group, the `n`-th of its file. -/
def readPropertyGroup (file : Path) (n : Nat) (entries : Entries) :
    Except Toml.Error (Except LoadError PropertyGroup) := do
  let location := "property_group #" ++ toString n
  let condition ← Toml.Fields.text? entries "condition"
  let properties ← readProperties file location entries
  return do
    let condition ← readCondition? file location condition
    let properties ← properties
    return { condition, properties }

/-- What is wrong with the fields of an item definition, if anything. -/
def itemFault? (type : String) (adds removes except metadata : Bool) : Option String :=
  if Text.trim type = "" then some "the item type is empty"
  else if adds && removes then some "'include' and 'remove' are exclusive"
  else if !adds && !removes then some "one of 'include' or 'remove' is required"
  else if removes && (except || metadata) then
    some "'remove' cannot be combined with 'exclude' or metadata"
  else none

/-- Reads the metadata of an item definition, in the order of the names. -/
def readMetadata (file : Path) (location : String) (metadata : Bindings) :
    Except LoadError (List (String × Expr)) :=
  metadata.mapM fun (name, text) => do
    return (name, ← readValue file (location ++ " metadata '" ++ name ++ "'") text)

/-- Reads an item definition. -/
def readItem (file : Path) (location : String) (entries : Entries) :
    Except Toml.Error (Except LoadError ItemDefinition) := do
  let type ← Toml.Fields.text entries "type"
  let added ← Toml.Fields.text? entries "include"
  let excluded ← Toml.Fields.text? entries "exclude"
  let removed ← Toml.Fields.text? entries "remove"
  let condition ← Toml.Fields.text? entries "condition"
  let pairs ← Toml.Fields.textPairs ((← Toml.Fields.table? entries "metadata").getD [])
  let metadata := Bindings.setAll [] pairs
  return do
    let here := location ++ " item '" ++ type ++ "'"
    if let some fault :=
        itemFault? type added.isSome removed.isSome excluded.isSome (metadata != []) then
      throw (.badItem file here fault)
    let metadata ← readMetadata file here metadata
    let added ← readValue? file here added
    let excluded ← readValue? file here excluded
    let removed ← readValue? file here removed
    let condition ← readCondition? file here condition
    match added, removed with
    | _, some patterns => return { type, action := .remove patterns, condition }
    | some items, none => return { type, action := .add items excluded metadata, condition }
    | none, none => throw (.badItem file here "one of 'include' or 'remove' is required")

/-- Reads item definitions. -/
def readItems (file : Path) (location : String) (entries : Entries) :
    Except Toml.Error (Except LoadError (List ItemDefinition)) := do
  let records ← Toml.Fields.records entries "item"
    ["type", "include", "exclude", "remove", "condition", "metadata"]
  readEach records fun _ => readItem file location

/-- Reads an item group, the `n`-th of its file. -/
def readItemGroup (file : Path) (n : Nat) (entries : Entries) :
    Except Toml.Error (Except LoadError ItemGroup) := do
  let location := "item_group #" ++ toString n
  let condition ← Toml.Fields.text? entries "condition"
  let items ← readItems file location entries
  return do
    let condition ← readCondition? file location condition
    let items ← items
    return { condition, items }

/-- Reads the importance of a message. -/
def readImportance (entries : Entries) : Except Toml.Error Importance := do
  match ← Toml.Fields.text? entries "importance" with
  | none => return .normal
  | some "low" => return .low
  | some "normal" => return .normal
  | some "high" => return .high
  | some word => .error (.unknownWord word)

/-- Reads the task of a kind. Fields that the kind does not have are ignored. -/
def readKind (file : Path) (location : String) (entries : Entries) :
    String → Except Toml.Error (Except LoadError Task)
  | "Message" => do
    let text ← Toml.Fields.text entries "text"
    let importance ← readImportance entries
    return do return .message (← readValue file location text) importance
  | "Error" => do
    let text ← Toml.Fields.text entries "text"
    return do return .error (← readValue file location text)
  | "Warning" => do
    let text ← Toml.Fields.text entries "text"
    return do return .warning (← readValue file location text)
  | "PropertyGroup" => do
    let properties ← readProperties file location entries
    return do return .setProperties (← properties)
  | "ItemGroup" => do
    let items ← readItems file location entries
    return do return .setItems (← items)
  | "Copy" => do
    let sources ← Toml.Fields.text entries "source_files"
    let files ← Toml.Fields.text? entries "destination_files"
    let folder ← Toml.Fields.text? entries "destination_folder"
    let skip ← Toml.Fields.flag entries "skip_unchanged_files" false
    return do
      let sources ← readValue file location sources
      let files ← readValue? file location files
      let folder ← readValue? file location folder
      return .copy sources files folder skip
  | "Delete" => do
    let files ← Toml.Fields.text entries "files"
    return do return .delete (← readValue file location files)
  | "Exec" => do
    let command ← Toml.Fields.text entries "command"
    let directory ← Toml.Fields.text? entries "working_directory"
    let ignore ← Toml.Fields.flag entries "ignore_exit_code" false
    return do
      let command ← readValue file location command
      let directory ← readValue? file location directory
      return .execute command directory ignore
  | "Compile" => do
    let sources ← Toml.Fields.text entries "sources"
    let references ← Toml.Fields.text? entries "references"
    let resources ← Toml.Fields.text? entries "resources"
    let outputAssembly ← Toml.Fields.text entries "output_assembly"
    let targetType ← Toml.Fields.text? entries "target_type"
    let defineConstants ← Toml.Fields.text? entries "define_constants"
    let additionalFlags ← Toml.Fields.text? entries "additional_flags"
    return do
      let sources ← readValue file location sources
      let references ← readValue? file location references
      let resources ← readValue? file location resources
      let outputAssembly ← readValue file location outputAssembly
      let targetType ← readValue? file location targetType
      let defineConstants ← readValue? file location defineConstants
      let additionalFlags ← readValue? file location additionalFlags
      return .compile
        { sources, references, resources, outputAssembly, targetType, defineConstants,
          additionalFlags }
  | "ResolveReferences" => do
    let references ← Toml.Fields.text entries "references"
    let searchPaths ← Toml.Fields.text? entries "search_paths"
    let outputItem ← Toml.Fields.text entries "output_item"
    return do
      let references ← readValue file location references
      let searchPaths ← readValue? file location searchPaths
      return .resolveReferences references searchPaths outputItem
  | "Output" => do
    let parameter ← Toml.Fields.text entries "task_parameter"
    let property ← Toml.Fields.text? entries "property_name"
    let item ← Toml.Fields.text? entries "item_name"
    return do return .output parameter property item
  | kind => .error (.unknownWord kind)

/-- Reads a task, the `n`-th of its target. -/
def readTask (file : Path) (location : String) (n : Nat) (entries : Entries) :
    Except Toml.Error (Except LoadError TaskNode) := do
  let here := location ++ " task #" ++ toString n
  let condition ← Toml.Fields.text? entries "condition"
  let kind ← Toml.Fields.text entries "kind"
  let task ← readKind file here entries kind
  return do
    let task ← task
    let condition ← readCondition? file here condition
    return { condition, task }

/-- Reads a target. -/
def readTarget (file : Path) (entries : Entries) :
    Except Toml.Error (Except LoadError Target) := do
  let name ← Toml.Fields.text entries "name"
  let condition ← Toml.Fields.text? entries "condition"
  let dependsOn ← Toml.Fields.text? entries "depends_on"
  let inputs ← Toml.Fields.text? entries "inputs"
  let outputs ← Toml.Fields.text? entries "outputs"
  let location := "target '" ++ name ++ "'"
  let tasks ← readEach (← Toml.Fields.tables entries "task") (readTask file location)
  return do
    let tasks ← tasks
    let condition ← readCondition? file location condition
    let dependsOn ← readValue? file location dependsOn
    let inputs ← readValue? file location inputs
    let outputs ← readValue? file location outputs
    return { name, condition, dependsOn, inputs, outputs, tasks }

/-- Reads the tables of a project file. -/
def ofEntries (file : Path) (entries : Entries) :
    Except Toml.Error (Except LoadError Project) := do
  Toml.Fields.allow entries ["default_targets", "property_group", "item_group", "target"]
  let defaultTargets ← Toml.Fields.text? entries "default_targets"
  let propertyGroups ← Toml.Fields.records entries "property_group" ["condition", "property"]
  let propertyGroups ← readEach propertyGroups (readPropertyGroup file)
  let itemGroups ← Toml.Fields.records entries "item_group" ["condition", "item"]
  let itemGroups ← readEach itemGroups (readItemGroup file)
  let targets ← Toml.Fields.records entries "target"
    ["name", "condition", "depends_on", "inputs", "outputs", "task"]
  let targets ← readEach targets fun _ => readTarget file
  return do
    let propertyGroups ← propertyGroups
    let itemGroups ← itemGroups
    let targets ← targets
    let defaultTargets ← readValue? file "default_targets" defaultTargets
    return { file, defaultTargets, propertyGroups, itemGroups, targets }

/-- The project that the contents of a file describe. -/
def ofText (file : Path) (contents : String) : Except LoadError Project :=
  match Toml.parse contents >>= ofEntries file with
  | .ok project => project
  | .error reason => .error (.malformed file reason)

/-- Reads the text of the project file at a normal path. -/
def readFile (files : FileSystem) (file : Path) : Except LoadError String :=
  (files.readText file).mapError (.unreadable file)

/-- Loads the project of a file. -/
def load (files : FileSystem) (file : Path) : Except LoadError Project := do
  ofText file.normalize (← readFile files file.normalize)

end Project

end BuildEngine
