import BuildEngine.Text.Fold

/-!
# Expressions

The trees behind conditions and values in project files. A condition is built from operators,
function calls and quoted texts; a value is a template in which property, item and metadata
references stand between pieces of text.
-/

namespace BuildEngine

/-- How tightly an operator binds its operands, loosest first. -/
inductive Precedence where
  | disjunction
  | conjunction
  | equality
  | relational
deriving DecidableEq, Repr

namespace Precedence

/-- The next tighter level; the operands of the tightest are not binary operations. -/
def tighter : Precedence → Option Precedence
  | disjunction => some conjunction
  | conjunction => some equality
  | equality => some relational
  | relational => none

/-- The number of levels that bind tighter. -/
def height : Precedence → Nat
  | disjunction => 3
  | conjunction => 2
  | equality => 1
  | relational => 0

/-- Going to a tighter level lowers the height by one. -/
theorem height_tighter {p q : Precedence} (h : p.tighter = some q) : q.height + 1 = p.height := by
  cases p <;> simp_all [tighter] <;> subst h <;> rfl

end Precedence

/-- The binary operators. -/
inductive BinaryOp where
  | equals
  | notEquals
  | less
  | lessOrEqual
  | greater
  | greaterOrEqual
  | and
  | or
deriving DecidableEq, Repr

namespace BinaryOp

/-- How tightly an operator binds. -/
def precedence : BinaryOp → Precedence
  | less | lessOrEqual | greater | greaterOrEqual => .relational
  | equals | notEquals => .equality
  | and => .conjunction
  | or => .disjunction

/-- The written form of an operator. -/
def symbol : BinaryOp → String
  | equals => "=="
  | notEquals => "!="
  | less => "<"
  | lessOrEqual => "<="
  | greater => ">"
  | greaterOrEqual => ">="
  | and => "AND"
  | or => "OR"

end BinaryOp

/-- The functions that a condition may call. -/
inductive Builtin where
  /-- Whether a file or directory is there. -/
  | pathExists
  /-- Whether a text ends in a path separator. -/
  | hasTrailingSlash
deriving DecidableEq, Repr

namespace Builtin

/-- The written name of a function. -/
def name : Builtin → String
  | pathExists => "Exists"
  | hasTrailingSlash => "HasTrailingSlash"

/-- The function of a name, whatever its case. -/
def ofName? (s : String) : Option Builtin :=
  if Text.sameFolded s pathExists.name then some pathExists
  else if Text.sameFolded s hasTrailingSlash.name then some hasTrailingSlash
  else none

end Builtin

/-- A condition or a value. -/
inductive Expr where
  /-- Text written without quotes. -/
  | literal (text : String)
  /-- Text written inside quotes or as a piece of a template. -/
  | quoted (text : String)
  /-- A property reference `$(name)`. -/
  | property (name : String)
  /-- A metadata reference `%(name)`. -/
  | metadata (name : String)
  /-- An item reference `@(name)`. -/
  | items (name : String)
  /-- An item projection `@(name -> '…')`, whose parts are evaluated once per item. -/
  | projection (name : String) (parts : List Expr)
  /-- Parts joined to one text. -/
  | concat (parts : List Expr)
  /-- Elements separated by `;`. -/
  | list (elements : List Expr)
  /-- Negation. -/
  | not (operand : Expr)
  /-- A binary operation. -/
  | binary (op : BinaryOp) (lhs rhs : Expr)
  /-- A function call. -/
  | call (function : Builtin) (argument : Expr)
deriving Repr, Inhabited

namespace Expr

mutual

/-- Equality of expressions is decided node by node. -/
def decEq (e f : Expr) : Decidable (e = f) := by
  cases e <;> cases f
  case literal.literal s t => exact decidable_of_iff (s = t) (by simp)
  case quoted.quoted s t => exact decidable_of_iff (s = t) (by simp)
  case property.property s t => exact decidable_of_iff (s = t) (by simp)
  case metadata.metadata s t => exact decidable_of_iff (s = t) (by simp)
  case items.items s t => exact decidable_of_iff (s = t) (by simp)
  case projection.projection s ps t qs =>
    have := decEqList ps qs
    exact decidable_of_iff (s = t ∧ ps = qs) (by simp)
  case concat.concat ps qs =>
    have := decEqList ps qs
    exact decidable_of_iff (ps = qs) (by simp)
  case list.list ps qs =>
    have := decEqList ps qs
    exact decidable_of_iff (ps = qs) (by simp)
  case not.not e f =>
    have := decEq e f
    exact decidable_of_iff (e = f) (by simp)
  case binary.binary o l r o' l' r' =>
    have := decEq l l'
    have := decEq r r'
    exact decidable_of_iff (o = o' ∧ l = l' ∧ r = r') (by simp)
  case call.call g e g' f =>
    have := decEq e f
    exact decidable_of_iff (g = g' ∧ e = f) (by simp)
  all_goals exact isFalse nofun

/-- Equality of lists of expressions is decided element by element. -/
def decEqList (es fs : List Expr) : Decidable (es = fs) := by
  cases es <;> cases fs
  case nil.nil => exact isTrue rfl
  case cons.cons e es f fs =>
    have := decEq e f
    have := decEqList es fs
    exact decidable_of_iff (e = f ∧ es = fs) (by simp)
  all_goals exact isFalse nofun

end

instance : DecidableEq Expr := decEq

/-- The expressions that can yield more than one item. -/
def isItemProducing : Expr → Bool
  | .items _ | .projection .. | .list _ => true
  | _ => false

end Expr

end BuildEngine
