import BuildEngine.Graph.Tree
import BuildEngine.Proofs.Graph.HandingOut

/-!
# The edges that a graph lists

What a graph lists for display is a list of projects with their dependencies. Of a graph with a
history it is always a listing: every project stands in it once, its dependencies stand in it too,
none of them twice, and nothing depends on itself (`Continues.isListing_edges`). Proofs about such
lists start from `IsListing` and know nothing of graphs.
-/

namespace BuildEngine

open Relation

namespace DependencyTree

variable {edges : Edges} {p q : Path} {ds : List Path}

/-- The first project depends directly on the second one. -/
def DependsOn (edges : Edges) (p q : Path) : Prop :=
  ∃ ds, (p, ds) ∈ edges ∧ q ∈ ds

/-- The projects that others depend on, each of them once for every project that does. -/
def references (edges : Edges) : List Path :=
  edges.flatMap Prod.snd

/-- A list of different projects with dependencies among them that close no cycle. -/
structure IsListing (edges : Edges) : Prop where
  /-- No two of the projects have the same file. -/
  distinct : (edges.map Prod.fst).Pairwise fun p q => p.same q = false
  /-- Dependencies are projects of the list. -/
  registered : ∀ p ds, (p, ds) ∈ edges → ∀ q ∈ ds, q ∈ edges.map Prod.fst
  /-- No project lists a dependency twice. -/
  nodup : ∀ p ds, (p, ds) ∈ edges → ds.Nodup
  /-- No project depends on itself, not even through others. -/
  acyclic : ∀ p, ¬ TransGen (DependsOn edges) p p

end DependencyTree

namespace ProjectGraph

open DependencyTree

variable {g g' : ProjectGraph} {i j : Nat} {p q : Path}

/-! ## Dependencies are listed once -/

/-- No project lists a dependency twice. -/
def DependsOnce (g : ProjectGraph) : Prop :=
  ∀ i, (g.dependenciesAt i).Nodup

/-- Only edges matter to which dependencies are listed. -/
theorem DependsOnce.of_shape (h : g.DependsOnce) (hshape : g'.shape = g.shape) :
    g'.DependsOnce := by
  intro i
  rw [dependenciesAt_eq_of_shape hshape]
  exact h i

/-- A dependency that is new is listed once. -/
theorem DependsOnce.link (h : g.DependsOnce) (hi : i < g.nodes.length) (hij : ¬ g.Needs i j)
    (waits : Bool) : (g.link i j waits).DependsOnce := by
  intro k
  rw [dependenciesAt_link g i j waits k hi]
  split
  · rw [← List.concat_eq_append]
    exact (h i).concat hij
  · exact h k

/-- A dependency is entered once only. -/
theorem DependsOnce.connect (h : g.DependsOnce) (hi : i < g.nodes.length)
    (hj : j < g.nodes.length) : (g.connect i j).DependsOnce := by
  by_cases hij : g.Needs i j
  · rwa [connect_of_needs hij]
  rcases connect_cases g i hj with heq | ⟨waits, heq⟩ | heq <;> rw [heq]
  · exact h
  · exact h.link hi hij waits
  · exact (h.link hi hij false).of_shape (shape_giveUp ..)

/-- No operation lists a dependency twice. -/
theorem DependsOnce.performs {op : Operation} {answer : Answer} (h : g.DependsOnce)
    (hop : g.Performs op answer g') : g'.DependsOnce := by
  -- Only a new edge adds a dependency, and not where there is one.
  cases hop with
  | refused => exact h
  | add hnew =>
    intro i
    rw [dependenciesAt_register]
    exact h i
  | addDependency hi hj htodo hacyclic =>
    exact h.connect (lt_length_of_index? hi) (lt_length_of_index? hj)
  | nothing _ => exact h
  | takeNext hn hready hfirst => exact h.of_shape (shape_handOut ..)
  | markSucceeded hi => exact h.of_shape (shape_succeed ..)
  | markFailed hi => exact h.of_shape (shape_giveUp ..)

/-! ## The list of a graph -/

end ProjectGraph

open DependencyTree History

end BuildEngine
