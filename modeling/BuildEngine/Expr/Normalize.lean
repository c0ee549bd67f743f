import BuildEngine.Expr.Basic

/-!
# Normal form of expressions

Nested concatenations and lists are flattened and neighbouring pieces of text are joined.
Projects are kept in this form. It means the same as the expression it was made from, and
normalizing it again changes nothing.
-/

namespace BuildEngine.Expr

/-- The text of a part that is plain text. -/
def plainText? : Expr → Option String
  | .literal s | .quoted s => some s
  | _ => none

/-- Puts text in front of parts, joining it to text that stands there. -/
def consText (s : String) : List Expr → List Expr
  | .quoted t :: parts => .quoted (s ++ t) :: parts
  | parts => .quoted s :: parts

/-- Joins neighbouring pieces of text. -/
def fuse : List Expr → List Expr
  | [] => []
  | part :: parts =>
    match part.plainText? with
    | some s => consText s (fuse parts)
    | none => part :: fuse parts

/-- The parts that a part of a concatenation stands for. -/
def spliceParts : Expr → List Expr
  | .concat inner => inner
  | e => [e]

/-- The elements that an element of a list stands for: an empty list still fills its place. -/
def spliceElements : Expr → List Expr
  | .list [] => [.quoted ""]
  | .list inner => inner
  | e => [e]

/-- The concatenation of parts: nothing is the empty text, and a single text or property
reference stands for itself. -/
def ofParts : List Expr → Expr
  | [] => .quoted ""
  | [.quoted s] => .quoted s
  | [.property n] => .property n
  | parts => .concat parts

mutual

/-- The normal form of an expression. -/
def normalize : Expr → Expr
  | .concat parts => ofParts (fuse (normalizeParts parts))
  | .list elements => .list (normalizeElements elements)
  | .projection n parts => .projection n (fuse (normalizeParts parts))
  | .not e => .not (normalize e)
  | .binary op l r => .binary op (normalize l) (normalize r)
  | .call f e => .call f (normalize e)
  | .literal s => .literal s
  | .quoted s => .quoted s
  | .property n => .property n
  | .metadata n => .metadata n
  | .items n => .items n

/-- The normal forms of the parts of a concatenation, flattened. -/
def normalizeParts : List Expr → List Expr
  | [] => []
  | part :: parts => spliceParts (normalize part) ++ normalizeParts parts

/-- The normal forms of the elements of a list, flattened. -/
def normalizeElements : List Expr → List Expr
  | [] => []
  | element :: elements => spliceElements (normalize element) ++ normalizeElements elements

end

end BuildEngine.Expr
