import BuildEngine.Path.Basic

/-!
# Sameness and order of paths

Two paths are the same if their components are (`Path.same_iff`), and the order of paths tells
the same of them (`Path.order_eq_iff`): what is kept in that order finds a path by any of its
spellings.
-/

namespace BuildEngine

/-- Components of one place in the order are equal. -/
theorem Component.order_eq_iff {c d : Component} : c.order d = .eq ↔ c = d := by
  cases c <;> cases d <;> simp [order, rank]

namespace Path

variable {p q r : Path}

/-- Two paths are the same if their components are. -/
theorem same_iff : p.same q = true ↔ p.components = q.components :=
  decide_eq_true_iff

/-- A path is the same as itself. -/
theorem same_self (p : Path) : p.same p = true :=
  same_iff.2 rfl

/-- Two paths are the same in either order. -/
theorem same_comm (p q : Path) : p.same q = q.same p :=
  decide_eq_decide.2 eq_comm

/-- Lists of components of one place in the order are equal. -/
theorem orderComponents_eq_iff {cs ds : List Component} :
    orderComponents cs ds = .eq ↔ cs = ds := by
  induction cs generalizing ds with
  | nil => cases ds <;> simp [orderComponents]
  | cons c cs ih =>
    cases ds with
    | nil => simp [orderComponents]
    | cons d ds =>
      rw [orderComponents, Ordering.then_eq_eq, Component.order_eq_iff, ih, List.cons.injEq]

/-- Two paths of one place in the order are the same. -/
theorem order_eq_iff : p.order q = .eq ↔ p.same q = true :=
  orderComponents_eq_iff.trans same_iff.symm

end Path

end BuildEngine
