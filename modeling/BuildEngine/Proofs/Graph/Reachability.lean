import BuildEngine.Proofs.Graph.Lookup
import Mathlib.Data.Finite.Prod
import Mathlib.Logic.Relation

/-!
# What a project rests on

The dependencies of a graph as a relation between the numbers of its projects. The search that
looks for cycles finds exactly what a project rests on (`dependsOn_iff`), so an edge that passes
it closes no cycle (`Acyclic.link`). In an acyclic graph, statements about projects are proved by
induction over what they rest on (`Acyclic.induction`).
-/

namespace BuildEngine.ProjectGraph

open Relation

variable {g g' : ProjectGraph} {i j k target : Nat} {pending seen : List Nat}

/-- The first project depends directly on the second one. -/
def Needs (g : ProjectGraph) (i j : Nat) : Prop :=
  j ∈ g.dependenciesAt i

/-- The first project depends on the second one, directly or through others. -/
def RestsOn (g : ProjectGraph) : Nat → Nat → Prop :=
  TransGen g.Needs

/-- No project depends on itself, not even through others. -/
def Acyclic (g : ProjectGraph) : Prop :=
  ∀ i, ¬ g.RestsOn i i

/-- Graphs of one shape have the same dependencies. -/
theorem needs_eq_of_shape (h : g'.shape = g.shape) : g'.Needs = g.Needs := by
  funext i j
  rw [Needs, Needs, dependenciesAt_eq_of_shape h]

/-- In graphs of one shape the same projects depend on each other. -/
theorem restsOn_eq_of_shape (h : g'.shape = g.shape) : g'.RestsOn = g.RestsOn := by
  rw [RestsOn, RestsOn, needs_eq_of_shape h]

/-- What needs nothing leads to itself only. -/
theorem not_reflTransGen_needs (h : g.dependenciesAt j = []) (hji : j ≠ i) :
    ¬ ReflTransGen g.Needs j i := by
  intro hreach
  rcases ReflTransGen.cases_head hreach with heq | ⟨k, hk, -⟩
  · exact hji heq
  · rw [Needs, h] at hk
    exact List.not_mem_nil hk

/-! ## The search for a dependency -/

/-- A search is on its way to a target: it has passed only others, and what these need has been
passed or is pending. -/
private def Searching (g : ProjectGraph) (target : Nat) (pending seen : List Nat) : Prop :=
  ∀ i ∈ seen, i ≠ target ∧ ∀ j, g.Needs i j → j ∈ seen ∨ j ∈ pending

/-- From what a search has passed, the target can only be reached through what is pending. -/
private theorem Searching.exists_mem_pending (h : Searching g target pending seen)
    (hi : i ∈ seen) (hreach : ReflTransGen g.Needs i target) :
    ∃ j ∈ pending, ReflTransGen g.Needs j target := by
  induction hreach using ReflTransGen.head_induction_on with
  | refl => exact absurd rfl (h target hi).1
  | @head a b hab hb ih =>
    rcases (h a hi).2 b hab with hseen | hpending
    · exact ih hseen
    · exact ⟨b, hpending, hb⟩

/-- The search succeeds exactly when the target is among what is pending or behind it. -/
private theorem reaches_iff (g : ProjectGraph) (target : Nat) (pending seen : List Nat)
    (h : Searching g target pending seen) :
    g.reaches target pending seen = true ↔
      ∃ i ∈ pending, ReflTransGen g.Needs i target := by
  fun_induction reaches g target pending seen with
  | case1 => simp
  | case2 seen rest => simp [ReflTransGen.refl]
  | case3 seen i rest hi hmem ih =>
    -- What was seen before is passed over: all that is behind it has been passed or is pending.
    have hrest : Searching g target rest seen := by
      intro a ha
      refine ⟨(h a ha).1, fun b hab => ?_⟩
      rcases (h a ha).2 b hab with hb | hb
      · exact .inl hb
      · rcases List.mem_cons.1 hb with rfl | hb
        · exact .inl hmem
        · exact .inr hb
    rw [ih hrest]
    constructor
    · rintro ⟨j, hj, hreach⟩
      exact ⟨j, List.mem_cons_of_mem _ hj, hreach⟩
    · rintro ⟨j, hj, hreach⟩
      rcases List.mem_cons.1 hj with rfl | hj
      · exact hrest.exists_mem_pending hmem hreach
      · exact ⟨j, hj, hreach⟩
  | case4 seen i rest hi hmem ih =>
    -- What is new is passed, and what it needs becomes pending in its place.
    have hnext : Searching g target (g.dependenciesAt i ++ rest) (i :: seen) := by
      intro a ha
      rcases List.mem_cons.1 ha with rfl | ha
      · exact ⟨hi, fun b hab => .inr (List.mem_append_left _ hab)⟩
      · refine ⟨(h a ha).1, fun b hab => ?_⟩
        rcases (h a ha).2 b hab with hb | hb
        · exact .inl (List.mem_cons_of_mem _ hb)
        · rcases List.mem_cons.1 hb with rfl | hb
          · exact .inl List.mem_cons_self
          · exact .inr (List.mem_append_right _ hb)
    rw [ih hnext]
    constructor
    · rintro ⟨j, hj, hreach⟩
      rcases List.mem_append.1 hj with hj | hj
      · exact ⟨i, List.mem_cons_self, .head hj hreach⟩
      · exact ⟨j, List.mem_cons_of_mem _ hj, hreach⟩
    · rintro ⟨j, hj, hreach⟩
      rcases List.mem_cons.1 hj with rfl | hj
      · rcases ReflTransGen.cases_head hreach with rfl | ⟨b, hb, hreach⟩
        · exact absurd rfl hi
        · exact ⟨b, List.mem_append_left _ hb, hreach⟩
      · exact ⟨j, List.mem_append_right _ hj, hreach⟩

/-- The search finds exactly the project itself and what it rests on. -/
theorem dependsOn_iff (g : ProjectGraph) (i j : Nat) :
    g.dependsOn i j = true ↔ ReflTransGen g.Needs i j := by
  rw [dependsOn, reaches_iff g j [i] [] (by simp [Searching])]
  simp

/-- An edge from the first project to the second one would close a cycle exactly when the second
one is the first one or rests on it. -/
theorem closesCycle_iff : (i = j ∨ g.dependsOn j i = true) ↔ ReflTransGen g.Needs j i := by
  rw [dependsOn_iff]
  refine ⟨?_, .inr⟩
  rintro (rfl | h)
  · exact .refl
  · exact h

/-! ## Graphs without cycles -/

/-- Only edges matter to cycles. -/
theorem acyclic_of_shape (h : g'.shape = g.shape) (hg : g.Acyclic) : g'.Acyclic := by
  rwa [Acyclic, restsOn_eq_of_shape h]

/-- A path after one edge was added is a path as before, or goes through the new edge. -/
private theorem restsOn_of_extended {a b : Nat}
    (hnew : ∀ a b, g'.Needs a b → g.Needs a b ∨ (a = i ∧ b = j)) (h : g'.RestsOn a b) :
    g.RestsOn a b ∨ (ReflTransGen g.Needs a i ∧ ReflTransGen g.Needs j b) := by
  -- On the path: it uses old edges only, or leads to `i` and on from `j`.
  induction h with
  | single hab =>
    rcases hnew _ _ hab with hab | ⟨rfl, rfl⟩
    · exact .inl (.single hab)
    · exact .inr ⟨.refl, .refl⟩
  | @tail b c _ hbc ih =>
    rcases hnew _ _ hbc with hbc | ⟨rfl, rfl⟩
    · rcases ih with hab | ⟨hai, hjb⟩
      · exact .inl (hab.tail hbc)
      · exact .inr ⟨hai, hjb.tail hbc⟩
    · rcases ih with hab | ⟨hai, -⟩
      · exact .inr ⟨hab.to_reflTransGen, .refl⟩
      · exact .inr ⟨hai, .refl⟩

/-- A link adds one edge. -/
theorem needs_link_iff (hi : i < g.nodes.length) (j : Nat) (waits : Bool) (a b : Nat) :
    (g.link i j waits).Needs a b ↔ g.Needs a b ∨ (a = i ∧ b = j) := by
  rw [Needs, dependenciesAt_link g i j waits a hi, Needs]
  by_cases ha : a = i
  · rw [if_pos ha, List.mem_append, List.mem_singleton, ha]
    simp
  · simp [ha]

/-- An edge closes no cycle unless its end rests on its beginning. -/
theorem Acyclic.link (hg : g.Acyclic) (hi : i < g.nodes.length)
    (h : ¬ ReflTransGen g.Needs j i) (waits : Bool) : (g.link i j waits).Acyclic := by
  intro a ha
  rcases restsOn_of_extended (fun a b => (needs_link_iff hi j waits a b).1) ha with
    ha | ⟨hai, hja⟩
  · exact hg a ha
  · exact h (hja.trans hai)

/-- Only numbers of the graph need something. -/
theorem Needs.lt_length (h : g.Needs i j) : i < g.nodes.length := by
  refine Nat.lt_of_not_le fun hi => ?_
  rw [Needs, dependenciesAt, List.getElem?_eq_none hi] at h
  exact List.not_mem_nil h

/-- In an acyclic graph, what holds of a project as soon as it holds of all it rests on, holds of
every project. -/
theorem Acyclic.induction {P : Nat → Prop} (hg : g.Acyclic)
    (hstep : ∀ i, (∀ j, g.RestsOn i j → P j) → P i) (i : Nat) : P i := by
  -- What needs nothing is settled at once; all else is a number below the length.
  have hend (i : Nat) (hi : ¬ i < g.nodes.length) : P i := by
    refine hstep i fun j hij => absurd ?_ hi
    rcases TransGen.head'_iff.1 hij with ⟨b, hib, -⟩
    exact Needs.lt_length hib
  -- A transitive relation without cycles on finitely many numbers has no infinite descent.
  let below (b a : Fin g.nodes.length) : Prop := g.RestsOn a b
  have htrans : IsTrans _ below := ⟨fun a b c hab hbc => TransGen.trans hbc hab⟩
  have hirrefl : Std.Irrefl below := ⟨fun a => hg a⟩
  have hwf : WellFounded below := Finite.wellFounded_of_trans_of_irrefl below
  have hfin (a : Fin g.nodes.length) : P a := by
    induction a using hwf.induction with
    | _ a ih =>
      refine hstep a fun j haj => ?_
      by_cases hj : j < g.nodes.length
      · exact ih ⟨j, hj⟩ haj
      · exact hend j hj
  by_cases hi : i < g.nodes.length
  · exact hfin ⟨i, hi⟩
  · exact hend i hi

end BuildEngine.ProjectGraph
