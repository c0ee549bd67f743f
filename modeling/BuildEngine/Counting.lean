/-!
# Counting

A list has fewer elements with a property than with a weaker one, provided that some element has
only the weaker one. Searches that never look at anything twice end because of that: what they have
not seen becomes less.
-/

namespace BuildEngine

/-- Fewer elements of a list have a property than have a weaker one that holds of `a` as well. -/
theorem countP_lt_countP {α : Type} {p q : α → Bool} {l : List α} {a : α}
    (h : ∀ x ∈ l, p x = true → q x = true) (ha : a ∈ l) (hp : p a = false) (hq : q a = true) :
    l.countP p < l.countP q := by
  -- On the list: `a` makes the difference, and no other element makes up for it.
  induction l with
  | nil => simp at ha
  | cons x rest ih =>
    have hrest : ∀ y ∈ rest, p y = true → q y = true := fun y hy => h y (List.mem_cons_of_mem _ hy)
    rw [List.countP_cons, List.countP_cons]
    rcases List.mem_cons.1 ha with rfl | ha
    · have := List.countP_mono_left hrest
      rw [hp, hq, if_pos rfl, if_neg Bool.false_ne_true]
      omega
    · have := ih hrest ha
      have hx := h x List.mem_cons_self
      by_cases hpx : p x = true
      · rw [if_pos hpx, if_pos (hx hpx)]
        omega
      · rw [if_neg hpx]
        omega

end BuildEngine
