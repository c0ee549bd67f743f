import BuildEngine.Environment
import BuildEngine.Expr.Printer
import BuildEngine.FileSystem.Basic
import BuildEngine.Item.Metadata
import BuildEngine.Text.Entries
import BuildEngine.Text.Number

/-!
# Meaning of expressions

An expression means a text or a truth value in a context, or new items of a type.

* `AND` and `OR` need two truth values and always look at both operands.
* Relational operators need two numbers.
* `==` and `!=` compare texts without regard to the case of ASCII letters.
* `!` turns a truth value around, makes the empty text true and every other text false.
* Item references and projections used as text are joined with `;`.
-/

namespace BuildEngine

/-- What an expression means. -/
inductive Value where
  | text (s : String)
  | truth (b : Bool)
deriving DecidableEq, Repr

/-- The text that shows a value. -/
def Value.toText : Value → String
  | text s => s
  | truth b => if b then "true" else "false"

/-- Why an expression has no meaning. -/
inductive EvalError where
  /-- An operand of `AND` or `OR`, or a condition, is no truth value. -/
  | notABoolean (e : Expr) (value : String)
  /-- An operand of a relational operator is no number. -/
  | notANumber (e : Expr) (value : String)
  /-- Metadata is mentioned where there is no item. -/
  | metadataOutsideItem (name : String)
deriving DecidableEq, Repr

/-- The message of an evaluation error. -/
def EvalError.message : EvalError → String
  | notABoolean e value =>
    "Expression \"" ++ e.render ++ "\" evaluated to \"" ++ value ++
      "\" instead of a boolean value."
  | notANumber e value =>
    "Expression \"" ++ e.render ++ "\" evaluated to \"" ++ value ++ "\" instead of a number."
  | metadataOutsideItem name =>
    "Metadata reference \"%(" ++ name ++ ")\" is only valid inside an item projection."

/-- What expressions are evaluated against. -/
structure Context where
  /-- The properties and items. -/
  env : Environment
  /-- The files that a condition may ask for. -/
  files : FileSystem
  /-- The directory that relative paths start from. -/
  base : Path
  /-- The item that metadata is taken from. -/
  item : Option Item
deriving DecidableEq, Repr

/-- The truth value that a text spells in any case of letters. -/
def truth? (s : String) : Option Bool :=
  if Text.sameFolded (Text.trim s) "true" then some true
  else if Text.sameFolded (Text.trim s) "false" then some false
  else none

namespace Value

/-- The truth value of `e`, whose value this is. -/
def asTruth (e : Expr) : Value → Except EvalError Bool
  | truth b => .ok b
  | text s =>
    match truth? s with
    | some b => .ok b
    | none => .error (.notABoolean e s)

/-- The number that `e` means, whose value this is. -/
def asNumber (e : Expr) (v : Value) : Except EvalError Float :=
  match Text.number? v.toText with
  | some x => .ok x
  | none => .error (.notANumber e v.toText)

/-- The other truth value. Of texts, the empty one counts as false, one that spells a truth value
as that, and any other as true. -/
def negate : Value → Bool
  | truth b => !b
  | text s => if s = "" then true else !((truth? s).getD true)

end Value

/-- Whether a text ends in a separator of either kind. -/
def endsInSeparator (s : String) : Bool :=
  s.toList.getLast? = some '/' || s.toList.getLast? = some '\\'

namespace Builtin

/-- The result of a function. -/
def apply (f : Builtin) (argument : String) (ctx : Context) : Bool :=
  match f with
  | pathExists =>
    let path := Text.trim argument
    path ≠ "" && ctx.files.isThere (ctx.base.absolutize ⟨path⟩)
  | hasTrailingSlash => endsInSeparator argument

end Builtin

/-- The result of a relational operator on two numbers. -/
def BinaryOp.compareNumbers (op : BinaryOp) (x y : Float) : Bool :=
  match op with
  | .less => x < y
  | .lessOrEqual => x ≤ y
  | .greater => x > y
  | _ => x ≥ y

/-- The result of an operator on the values of its operands `l` and `r`. -/
def BinaryOp.apply (op : BinaryOp) (l r : Expr) (left right : Except EvalError Value) :
    Except EvalError Bool :=
  match op with
  -- Both operands have to be truth values, also where the left one decides.
  | .and => do
    let a ← (← left).asTruth l
    let b ← (← right).asTruth r
    return a && b
  | .or => do
    let a ← (← left).asTruth l
    let b ← (← right).asTruth r
    return a || b
  | .equals => do
    let a ← left
    let b ← right
    return Text.sameFolded a.toText b.toText
  | .notEquals => do
    let a ← left
    let b ← right
    return !Text.sameFolded a.toText b.toText
  | op => do
    let x ← (← left).asNumber l
    let y ← (← right).asNumber r
    return op.compareNumbers x y

namespace Expr

mutual

/-- The value of an expression. -/
def evaluate : Expr → Context → Except EvalError Value
  | .literal s, _ => .ok (.text s)
  | .quoted s, _ => .ok (.text s)
  | .property n, ctx => .ok (.text (ctx.env.property n))
  | .metadata n, ctx =>
    match ctx.item with
    | some item => .ok (.text (item.metadataValue ctx.base n))
    | none => .error (.metadataOutsideItem n)
  | .items n, ctx =>
    .ok (.text (Text.joinEntries ((ctx.env.items n).map Item.identity)))
  | .projection n parts, ctx => do
    let texts ← (ctx.env.items n).mapM fun item => do
      return String.join (← evaluateAll parts { ctx with item := some item })
    -- An item whose projected text is empty leaves no entry.
    return .text (Text.joinEntries (texts.filter (· ≠ "")))
  | .concat parts, ctx => do
    return .text (String.join (← evaluateAll parts ctx))
  | .list elements, ctx => do
    return .text (Text.joinEntries (← evaluateAll elements ctx))
  | .not e, ctx => do
    return .truth (← evaluate e ctx).negate
  | .binary op l r, ctx => do
    return .truth (← op.apply l r (evaluate l ctx) (evaluate r ctx))
  | .call f e, ctx => do
    return .truth (f.apply (← evaluate e ctx).toText ctx)

/-- The texts of expressions, up to the first that has no value. -/
def evaluateAll : List Expr → Context → Except EvalError (List String)
  | [], _ => .ok []
  | e :: es, ctx => do
    let v ← evaluate e ctx
    return v.toText :: (← evaluateAll es ctx)

end

/-- The text of an expression. -/
def evaluateText (e : Expr) (ctx : Context) : Except EvalError String := do
  return (← e.evaluate ctx).toText

/-- The truth value of an expression. -/
def evaluateCondition (e : Expr) (ctx : Context) : Except EvalError Bool := do
  (← e.evaluate ctx).asTruth e

/-- The truth value of a condition that may be absent, and is true then. -/
def evaluateOptional (condition : Option Expr) (ctx : Context) : Except EvalError Bool :=
  match condition with
  | none => .ok true
  | some e => e.evaluateCondition ctx

/-- The entries of the list that an expression means. -/
def evaluateEntries (e : Expr) (ctx : Context) : Except EvalError (List String) := do
  return Text.entries (← e.evaluateText ctx)

/-- The items that the entries of an expression make. -/
def entryItems (e : Expr) (ctx : Context) (type : String) : Except EvalError (List Item) := do
  return (← e.evaluateEntries ctx).map (Item.ofIdentity type)

/-- The items that a projection makes: one for each item whose projected text is not empty,
with its metadata. -/
def projectItems (parts : List Expr) (ctx : Context) (type : String) :
    List Item → Except EvalError (List Item)
  | [] => .ok []
  | source :: rest => do
    let identity := String.join (← evaluateAll parts { ctx with item := some source })
    let more ← projectItems parts ctx type rest
    return if identity = "" then more else { source with type, identity } :: more

mutual

/-- The items of a type that an expression means. References and projections carry metadata
over, and so do lists of them; everything else is read as a list of identities. -/
def evaluateItems : Expr → Context → String → Except EvalError (List Item)
  | .items n, ctx, type => .ok ((ctx.env.items n).map (Item.retype · type))
  | .projection n parts, ctx, type => projectItems parts ctx type (ctx.env.items n)
  | .list elements, ctx, type => evaluateAllItems elements ctx type
  | .concat [part], ctx, type =>
    -- A template that is a single reference keeps the metadata of its items.
    if part.isItemProducing then evaluateItems part ctx type
    else entryItems (.concat [part]) ctx type
  | e, ctx, type => entryItems e ctx type

/-- The items that expressions mean one after the other. -/
def evaluateAllItems : List Expr → Context → String → Except EvalError (List Item)
  | [], _, _ => .ok []
  | e :: es, ctx, type => do
    let items ← evaluateItems e ctx type
    return items ++ (← evaluateAllItems es ctx type)

end

end Expr

end BuildEngine
