import BuildEngine.Expr.Eval
import BuildEngine.Glob.Expand
import BuildEngine.Project.Basic

/-!
# Evaluating projects

The properties and items of a project fill a new level of an environment: property groups first,
then item groups, each in order, so that later definitions see the effects of earlier ones. The
same definitions can also be made by tasks while a target runs. A definition that cannot be
evaluated changes nothing; what was defined before it stays.
-/

namespace BuildEngine

/-- Files, and the directory that relative paths start from. -/
structure Place where
  /-- The files that definitions may look at. -/
  files : FileSystem
  /-- The directory of the project. -/
  base : Path
deriving DecidableEq, Repr

namespace Place

/-- What expressions of a project are evaluated against. -/
def context (p : Place) (env : Environment) : Context :=
  { env, files := p.files, base := p.base, item := none }

end Place

/-- Whether an item with this identity matches one of the patterns. -/
def matchesAny (base : Path) (patterns : List String) (identity : String) : Bool :=
  patterns.any fun pattern => Glob.matchesPattern base pattern identity

namespace Environment

/-- An environment after definitions, and why they stopped if one could not be evaluated. -/
abbrev Defined := Environment × Except EvalError Unit

/-- Makes definitions in order, stopping at the first that fails. -/
def defineAll {α : Type} (define : Environment → α → Except EvalError Environment)
    (env : Environment) : List α → Defined
  | [] => (env, .ok ())
  | d :: ds =>
    match define env d with
    | .ok env => defineAll define env ds
    | .error e => (env, .error e)

/-- Sets a property if its condition holds. -/
def define (place : Place) (env : Environment) (p : Property) : Except EvalError Environment := do
  if ← Expr.evaluateOptional p.condition (place.context env) then
    return env.setProperty p.name (← p.value.evaluateText (place.context env))
  else return env

/-- The item itself, or an item for every file that its identity stands for. -/
def expandItem (place : Place) (type : String) (i : Item) : List Item :=
  if Glob.hasWildcard i.identity.toList then
    (Glob.expand place.files place.base i.identity).map fun found =>
      { type, identity := found.identity,
        metadata := i.metadata.set WellKnown.recursiveDir.name found.recursiveDir }
  else [i]

/-- An item with the metadata of its definition on top of its own. -/
def withMetadata (ctx : Context) (metadata : List (String × Expr)) (i : Item) :
    Except EvalError Item := do
  let values ← metadata.mapM fun (name, value) => do
    return (name, ← value.evaluateText { ctx with item := some i })
  return { i with metadata := i.metadata.setAll values }

/-- The items that an addition stands for. -/
def newItems (place : Place) (env : Environment) (type : String) (items : Expr)
    (excluded : Option Expr) (metadata : List (String × Expr)) : Except EvalError (List Item) := do
  let ctx := place.context env
  let patterns ← match excluded with
    | some e => e.evaluateEntries ctx
    | none => pure []
  let evaluated ← items.evaluateItems ctx type
  let expanded := evaluated.flatMap (expandItem place type)
  let kept := expanded.filter fun i => !matchesAny place.base patterns i.identity
  kept.mapM (withMetadata ctx metadata)

/-- Adds or removes items if the condition of their definition holds. -/
def defineItems (place : Place) (env : Environment) (d : ItemDefinition) :
    Except EvalError Environment := do
  if ← Expr.evaluateOptional d.condition (place.context env) then
    match d.action with
    | .remove patterns =>
      let patterns ← patterns.evaluateEntries (place.context env)
      let doomed := (env.items d.type).filter fun i => matchesAny place.base patterns i.identity
      return doomed.foldl (fun env i => env.removeItem d.type i.identity) env
    | .add items excluded metadata =>
      return (← newItems place env d.type items excluded metadata).foldl addItem env
  else return env

/-- Sets properties in order. -/
def defineProperties (place : Place) (env : Environment) (properties : List Property) : Defined :=
  defineAll (define place) env properties

/-- Adds and removes items in order. -/
def defineItemsAll (place : Place) (env : Environment) (items : List ItemDefinition) : Defined :=
  defineAll (defineItems place) env items

end Environment

namespace Project

/-- Where the definitions of a project are evaluated. -/
def place (p : Project) (files : FileSystem) : Place :=
  ⟨files, p.directory⟩

/-- A new level with the properties that describe the project file itself. -/
def seed (p : Project) (outer : Environment) : Environment :=
  (((outer.child.setProperty "ProjectFile" p.fileName).setProperty "ProjectName" p.name).setProperty
    "ProjectDirectory" p.directory.text).setProperty "ProjectFullPath" p.file.text

/-- Makes the definitions of a group if its condition holds. -/
def applyGroup {α : Type} (place : Place)
    (define : Environment → List α → Environment.Defined) (env : Environment)
    (group : Option Expr × List α) : Except EvalError Environment := do
  if ← Expr.evaluateOptional group.1 (place.context env) then
    match define env group.2 with
    | (env, .ok ()) => return env
    | (_, .error e) => throw e
  else return env

/-- The environment of a project inside another environment. -/
def evaluate (p : Project) (outer : Environment) (files : FileSystem) :
    Except EvalError Environment := do
  let place := p.place files
  let env ← p.propertyGroups.foldlM
    (fun env g => applyGroup place (Environment.defineProperties place) env
      (g.condition, g.properties))
    (p.seed outer)
  p.itemGroups.foldlM
    (fun env g => applyGroup place (Environment.defineItemsAll place) env (g.condition, g.items))
    env

end Project

end BuildEngine
