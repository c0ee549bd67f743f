import BuildEngine.Path.Basic
import Mathlib.Data.List.Nodup
import Mathlib.Logic.Relation

/-!
# Breadth-first order

The order in which paths that lead to one another are discovered, said with a queue
(`BreadthFirst`): the path in front is done with, and the new ones that it leads to come last. There
is one such order (`BreadthFirst.unique`), it holds what the queue leads to
(`BreadthFirst.mem_iff`), and it ends if only so many paths lead anywhere (`exists_breadthFirst`).
-/

namespace BuildEngine.Discovery

open Relation

/-- The order in which paths are done with, behind those that are done and with a queue of those
that come next: the paths that the first one leads to and that are new are put at the end of the
queue. -/
inductive BreadthFirst (next : Path → List Path) : List Path → List Path → List Path → Prop
  | nil {done : List Path} : BreadthFirst next done [] done
  | cons {done queue order : List Path} {p : Path} :
    BreadthFirst next (done ++ [p]) (queue ++ (next p).filter (· ∉ done ++ p :: queue)) order →
      BreadthFirst next done (p :: queue) order

variable {next : Path → List Path} {done queue order order' known : List Path} {p q : Path}

/-- With nothing left in the queue, the order is what is done. -/
theorem breadthFirst_nil_iff : BreadthFirst next done [] order ↔ order = done := by
  constructor
  · rintro ⟨⟩
    rfl
  · rintro rfl
    exact .nil

/-- The path in front of the queue is done with first, and what is new of that which it leads to is
put at the end. -/
theorem breadthFirst_cons_iff :
    BreadthFirst next done (p :: queue) order ↔
      BreadthFirst next (done ++ [p]) (queue ++ (next p).filter (· ∉ done ++ p :: queue))
        order := by
  constructor
  · rintro (_ | h)
    exact h
  · exact .cons

/-- All that is done or queued, told from before the first path is done with. -/
theorem done_append_queue (done queue new : List Path) (p : Path) :
    done ++ [p] ++ (queue ++ new) = done ++ p :: queue ++ new := by
  simp

/-- There is one order. -/
theorem BreadthFirst.unique (h : BreadthFirst next done queue order)
    (h' : BreadthFirst next done queue order') : order = order' := by
  induction h with
  | nil => exact (breadthFirst_nil_iff.1 h').symm
  | cons _ ih => exact ih (breadthFirst_cons_iff.1 h')

/-- What is done and queued stays in front. -/
theorem BreadthFirst.starts_with_known (h : BreadthFirst next done queue order) :
    done ++ queue <+: order := by
  induction h with
  | nil => exact (List.append_nil _).symm ▸ List.prefix_rfl
  | cons _ ih =>
    rw [done_append_queue] at ih
    exact (List.prefix_append _ _).trans ih

/-- What is known stays without repetitions when new paths are added. -/
theorem nodup_append_filter (hnext : (next p).Nodup) (h : known.Nodup) :
    (known ++ (next p).filter (· ∉ known)).Nodup := by
  refine List.nodup_append.2 ⟨h, hnext.filter _, ?_⟩
  rintro a ha b hb rfl
  exact of_decide_eq_true (List.mem_filter.1 hb).2 ha

/-- No path is done with twice. -/
theorem BreadthFirst.nodup (h : BreadthFirst next done queue order)
    (hnext : ∀ p, (next p).Nodup) (hnodup : (done ++ queue).Nodup) : order.Nodup := by
  induction h with
  | nil => rwa [List.append_nil] at hnodup
  | cons _ ih =>
    refine ih ?_
    rw [done_append_queue]
    exact nodup_append_filter (hnext _) hnodup

/-- What holds of all that is known, and of all that a path leads to, holds when new paths are
added. -/
theorem forall_mem_append_filter {P : Path → Prop} (hnext : ∀ q ∈ next p, P q)
    (h : ∀ q ∈ known, P q) : ∀ q ∈ known ++ (next p).filter (· ∉ known), P q := by
  intro q hq
  rcases List.mem_append.1 hq with hq | hq
  · exact h q hq
  · exact hnext q (List.mem_filter.1 hq).1

/-- Whatever holds of all that is done or queued, and of all that such paths lead to, holds of the
whole order. -/
theorem BreadthFirst.forall_mem {P : Path → Prop} (h : BreadthFirst next done queue order)
    (hnext : ∀ p, P p → ∀ q ∈ next p, P q) (hP : ∀ p ∈ done ++ queue, P p) : ∀ p ∈ order, P p := by
  induction h with
  | nil => rwa [List.append_nil] at hP
  | @cons done queue order p _ ih =>
    refine ih ?_
    rw [done_append_queue]
    exact forall_mem_append_filter (hnext p (hP p (by simp))) hP

/-- The order holds all that its paths lead to. -/
theorem BreadthFirst.closed (h : BreadthFirst next done queue order)
    (hdone : ∀ p ∈ done, ∀ q ∈ next p, q ∈ done ++ queue) :
    ∀ p ∈ order, ∀ q ∈ next p, q ∈ order := by
  induction h with
  | nil => simpa using hdone
  | @cons done queue order p _ ih =>
    refine ih fun a ha b hb => ?_
    rw [done_append_queue]
    -- What the path just done leads to was known before, or is queued now.
    by_cases hknown : b ∈ done ++ p :: queue
    · exact List.mem_append_left _ hknown
    · rcases List.mem_append.1 ha with ha | ha
      · exact absurd (hdone a ha b hb) hknown
      · obtain rfl := List.mem_singleton.1 ha
        exact List.mem_append_right _ (List.mem_filter.2 ⟨hb, decide_eq_true hknown⟩)

/-- The order holds exactly what the queue leads to, directly or through others. -/
theorem BreadthFirst.mem_iff (h : BreadthFirst next [] queue order) :
    p ∈ order ↔ ∃ r ∈ queue, ReflTransGen (fun p q => q ∈ next p) r p := by
  constructor
  -- To be reached from the queue is kept by steps; what is reached is there as the order is closed.
  · refine h.forall_mem (P := fun p => ∃ r ∈ queue, ReflTransGen (fun p q => q ∈ next p) r p)
      ?_ ?_ p
    · rintro a ⟨r, hr, hra⟩ b hb
      exact ⟨r, hr, hra.tail hb⟩
    · intro r hr
      exact ⟨r, hr, .refl⟩
  · rintro ⟨r, hr, hreach⟩
    induction hreach with
    | refl => exact h.starts_with_known.subset hr
    | tail _ hnext ih => exact h.closed (by simp) _ ih _ hnext

/-- If no more than `bound` paths lead anywhere, there is an order. -/
theorem exists_breadthFirst {P : Path → Prop} {bound : Nat} (hnext : ∀ p, P p → ∀ q ∈ next p, P q)
    (hnodup : ∀ p, (next p).Nodup)
    (hbound : ∀ ps : List Path, ps.Nodup → (∀ p ∈ ps, P p ∧ next p ≠ []) → ps.length ≤ bound)
    (done queue : List Path) (hdistinct : (done ++ queue).Nodup) (hP : ∀ p ∈ done ++ queue, P p) :
    ∃ order, BreadthFirst next done queue order := by
  -- What is done grows with every step, up to the bound on the paths with successors.
  match queue with
  | [] => exact ⟨done, .nil⟩
  | p :: queue =>
    have hdistinct' : (done ++ [p] ++
        (queue ++ (next p).filter (· ∉ done ++ p :: queue))).Nodup := by
      rw [done_append_queue]
      exact nodup_append_filter (hnodup p) hdistinct
    have hP' : ∀ q ∈ done ++ [p] ++ (queue ++ (next p).filter (· ∉ done ++ p :: queue)), P q := by
      rw [done_append_queue]
      exact forall_mem_append_filter (hnext p (hP p (by simp))) hP
    obtain ⟨order, horder⟩ := exists_breadthFirst hnext hnodup hbound _ _ hdistinct' hP'
    exact ⟨order, .cons horder⟩
-- Either one more path that leads somewhere is done with, or the queue gets shorter.
termination_by (bound - (done.filter (next · ≠ [])).length, queue.length)
decreasing_by
  by_cases hp : next p = []
  · -- The queue gets shorter.
    have hfilter : (done ++ [p]).filter (next · ≠ []) = done.filter (next · ≠ []) := by
      simp [hp]
    rw [hfilter, hp, List.filter_nil, List.append_nil]
    exact Prod.Lex.right _ (Nat.lt_succ_self _)
  · -- One more path leads somewhere.
    have hfilter : (done ++ [p]).filter (next · ≠ []) = done.filter (next · ≠ []) ++ [p] := by
      simp [hp]
    have hle : (done.filter (next · ≠ []) ++ [p]).length ≤ bound := by
      rw [← hfilter]
      refine hbound _ (List.Nodup.filter _ ?_) fun q hq => ?_
      · exact (List.nodup_append.1 hdistinct').1
      · obtain ⟨hq, hne⟩ := List.mem_filter.1 hq
        exact ⟨hP' q (List.mem_append_left _ hq), of_decide_eq_true hne⟩
    rw [List.length_append, List.length_singleton] at hle
    rw [hfilter, List.length_append, List.length_singleton]
    exact Prod.Lex.left _ _ (by omega)

end BuildEngine.Discovery
