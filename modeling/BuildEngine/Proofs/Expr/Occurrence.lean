import BuildEngine.Expr.Basic

/-!
# What stands inside of an expression

Statements about every place of an expression speak of what occurs in it: the expression itself,
its operands, parts and elements, and what occurs in those.
-/

namespace BuildEngine.Expr

variable {e f g : Expr}

/-- The operands, parts or elements of an expression, in order. -/
def children : Expr → List Expr
  | .projection _ parts | .concat parts | .list parts => parts
  | .not e | .call _ e => [e]
  | .binary _ l r => [l, r]
  | .literal _ | .quoted _ | .property _ | .metadata _ | .items _ => []

/-- An expression occurs in another one if it is that one or occurs in a child of it. -/
inductive Occurs (e : Expr) : Expr → Prop
  | self : Occurs e e
  | inside {f g : Expr} : g ∈ f.children → Occurs e g → Occurs e f

/-- What occurs in an expression is the expression or occurs in a child. -/
theorem occurs_iff : Occurs e f ↔ e = f ∨ ∃ g ∈ f.children, Occurs e g := by
  constructor
  · rintro (_ | ⟨hg, h⟩)
    · exact .inl rfl
    · exact .inr ⟨_, hg, h⟩
  · rintro (rfl | ⟨g, hg, h⟩)
    · exact .self
    · exact .inside hg h

/-- What occurs in something that occurs occurs. -/
theorem Occurs.trans (h : Occurs e f) (hf : Occurs f g) : Occurs e g := by
  induction hf with
  | self => exact h
  | inside hg _ ih => exact .inside hg ih

/-- A child occurs. -/
theorem occurs_of_mem_children (h : e ∈ f.children) : Occurs e f :=
  .inside h .self

end BuildEngine.Expr
