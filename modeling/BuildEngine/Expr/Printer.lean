import BuildEngine.Expr.Basic

/-!
# Written form of expressions

The text that messages show for an expression. Binary operations are bracketed, and pieces of
text inside a concatenation stand without quotes of their own.
-/

namespace BuildEngine.Expr

mutual

/-- The written form of an expression. -/
def render : Expr → String
  | .literal s => s
  | .quoted s => "'" ++ s ++ "'"
  | .property n => "$(" ++ n ++ ")"
  | .metadata n => "%(" ++ n ++ ")"
  | .items n => "@(" ++ n ++ ")"
  | .projection n parts => "@(" ++ n ++ " -> '" ++ renderParts parts ++ "')"
  | .concat parts => "'" ++ renderParts parts ++ "'"
  | .list elements => String.intercalate ";" (renderElements elements)
  | .not e => "!" ++ render e
  | .binary op l r => "(" ++ render l ++ " " ++ op.symbol ++ " " ++ render r ++ ")"
  | .call f e => f.name ++ "(" ++ render e ++ ")"

/-- The written form of parts that stand inside one pair of quotes. -/
def renderParts : List Expr → String
  | [] => ""
  | .literal s :: parts => s ++ renderParts parts
  | .quoted s :: parts => s ++ renderParts parts
  | part :: parts => render part ++ renderParts parts

/-- The written form of every element of a list. -/
def renderElements : List Expr → List String
  | [] => []
  | element :: elements => render element :: renderElements elements

end

instance : ToString Expr := ⟨render⟩

/-- A projection is written with its parts in quotes. -/
theorem render_projection (n : String) (parts : List Expr) :
    render (.projection n parts) = "@(" ++ n ++ " -> '" ++ renderParts parts ++ "')" := by
  rw [render]

/-- A text among the parts is written without quotes. -/
theorem renderParts_quoted (s : String) (parts : List Expr) :
    renderParts (.quoted s :: parts) = s ++ renderParts parts := by
  rw [renderParts]

end BuildEngine.Expr
