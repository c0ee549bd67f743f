import BuildEngine.Graph.Basic
import BuildEngine.Proofs.Path.Order

/-!
# What a graph shows of a project

A graph is looked at by the numbers of its projects: the status, the edges, what is outstanding.
Every operation is made of a few changes of nodes, and this module says what each of them does to
what can be looked up.

* `shape` is what a build leaves alone: the projects and the edges between them.
* `statusAt_finish_self`, `outstandingAt_release`, `dependenciesAt_link` and their like give the
  value after a change by the values before it.
-/

namespace BuildEngine

/-- What a build does not change about a project: the project and its edges. -/
def ProjectNode.shape (n : ProjectNode) : Project × List Nat × List Nat :=
  (n.project, n.dependencies, n.dependents)

namespace ProjectGraph

variable {g g' : ProjectGraph} {i j k : Nat} {s : ProjectStatus} {n : ProjectNode}

/-- The projects of a graph and the edges between them. -/
def shape (g : ProjectGraph) : List (Project × List Nat × List Nat) :=
  g.nodes.map ProjectNode.shape

/-- The project with a number. -/
def projectAt? (g : ProjectGraph) (i : Nat) : Option Project :=
  g.nodes[i]?.map ProjectNode.project

/-- The environment that the project with a number still waits with. -/
def environmentAt? (g : ProjectGraph) (i : Nat) : Option Environment :=
  (g.nodes[i]?.map ProjectNode.environment).join

/-- What the project with a number still waits for. -/
def outstandingAt (g : ProjectGraph) (i : Nat) : List Nat :=
  (g.nodes[i]?.map ProjectNode.outstanding).getD []

/-- The project with a number waits to be built or is being built. -/
def Unfinished (g : ProjectGraph) (i : Nat) : Prop :=
  g.statusAt i = some .todo ∨ g.statusAt i = some .inFlight

/-- The project with a number failed, or was skipped because something it depends on failed. -/
def Lost (g : ProjectGraph) (i : Nat) : Prop :=
  g.statusAt i = some .failed ∨ g.statusAt i = some .skipped

/-- The project with a number can be handed out. -/
def Ready (g : ProjectGraph) (i : Nat) : Prop :=
  g.statusAt i = some .todo ∧ g.outstandingAt i = []

/-! ## Looking up a node -/

/-- The dependencies of a project are those of its node. -/
theorem dependenciesAt_eq (g : ProjectGraph) (i : Nat) :
    g.dependenciesAt i = (g.nodes[i]?.map ProjectNode.dependencies).getD [] := by
  unfold dependenciesAt
  cases g.nodes[i]? <;> rfl

/-- The dependents of a project are those of its node. -/
theorem dependentsAt_eq (g : ProjectGraph) (i : Nat) :
    g.dependentsAt i = (g.nodes[i]?.map ProjectNode.dependents).getD [] := by
  unfold dependentsAt
  cases g.nodes[i]? <;> rfl

/-- The status of a project is that of its node. -/
theorem statusAt_of_getElem? (h : g.nodes[i]? = some n) : g.statusAt i = some n.status := by
  rw [statusAt, h, Option.map_some]

/-- What a project waits for is what its node waits for. -/
theorem outstandingAt_of_getElem? (h : g.nodes[i]? = some n) :
    g.outstandingAt i = n.outstanding := by
  rw [outstandingAt, h, Option.map_some, Option.getD_some]

/-- The project with a number is that of its node. -/
theorem projectAt?_of_getElem? (h : g.nodes[i]? = some n) : g.projectAt? i = some n.project := by
  rw [projectAt?, h, Option.map_some]

/-- A status is the status of a node. -/
theorem exists_getElem?_of_statusAt (h : g.statusAt i = some s) :
    ∃ n, g.nodes[i]? = some n ∧ n.status = s := by
  simpa only [statusAt, Option.map_eq_some_iff] using h

/-- Only numbers of the graph have a status. -/
theorem lt_length_of_statusAt (h : g.statusAt i = some s) : i < g.nodes.length := by
  obtain ⟨n, hn, -⟩ := exists_getElem?_of_statusAt h
  exact (List.getElem?_eq_some_iff.1 hn).1

/-- Where everything waits, nothing has another status. -/
theorem eq_todo_of_statusAt (hg : ∀ n ∈ g.nodes, n.status = .todo) (h : g.statusAt i = some s) :
    s = .todo := by
  obtain ⟨n, hn, rfl⟩ := exists_getElem?_of_statusAt h
  exact hg n (List.mem_of_getElem? hn)

/-- Only numbers of the graph have dependents. -/
theorem lt_length_of_mem_dependentsAt (h : j ∈ g.dependentsAt i) : i < g.nodes.length := by
  refine Nat.lt_of_not_le fun hi => ?_
  rw [dependentsAt, List.getElem?_eq_none hi] at h
  exact List.not_mem_nil h

/-- A project waits if its status says so. -/
theorem isTodoAt_iff : g.isTodoAt i = true ↔ g.statusAt i = some .todo := by
  unfold isTodoAt statusAt
  cases g.nodes[i]? with
  | none => simp
  | some n => simp [ProjectNode.isTodo]

/-- A node is unfinished exactly when its status is none of the final ones. -/
theorem unfinished_iff_of_getElem? (h : g.nodes[i]? = some n) :
    g.Unfinished i ↔ n.status.isFinished = false := by
  rw [Unfinished, statusAt_of_getElem? h]
  cases n.status <;> simp [ProjectStatus.isFinished]

/-- A node can be handed out exactly when it waits for nothing. -/
theorem ready_iff_of_getElem? (h : g.nodes[i]? = some n) : g.Ready i ↔ n.isReady = true := by
  rw [Ready, statusAt_of_getElem? h, outstandingAt_of_getElem? h]
  simp [ProjectNode.isReady, ProjectNode.isTodo]

/-! ## Kinds of statuses -/

/-- Every project is unfinished, succeeded or lost. -/
theorem unfinished_or_succeeded_or_lost (hi : i < g.nodes.length) :
    g.Unfinished i ∨ g.statusAt i = some .succeeded ∨ g.Lost i := by
  have h : g.statusAt i = some g.nodes[i].status :=
    statusAt_of_getElem? (List.getElem?_eq_getElem hi)
  unfold Unfinished Lost
  rw [h]
  cases g.nodes[i].status <;> simp

/-- What is unfinished is not lost. -/
theorem Unfinished.not_lost (h : g.Unfinished i) : ¬ g.Lost i := by
  rintro (hl | hl) <;> rcases h with h | h <;> rw [h] at hl <;> simp at hl

/-- What is unfinished has not succeeded. -/
theorem Unfinished.ne_succeeded (h : g.Unfinished i) : g.statusAt i ≠ some .succeeded := by
  rcases h with h | h <;> rw [h] <;> simp

/-- What is lost has not succeeded. -/
theorem Lost.ne_succeeded (h : g.Lost i) : g.statusAt i ≠ some .succeeded := by
  rcases h with h | h <;> rw [h] <;> simp

/-- What is unfinished has a place. -/
theorem Unfinished.lt_length (h : g.Unfinished i) : i < g.nodes.length := by
  rcases h with h | h <;> exact lt_length_of_statusAt h

/-- What is lost has a place. -/
theorem Lost.lt_length (h : g.Lost i) : i < g.nodes.length := by
  rcases h with h | h <;> exact lt_length_of_statusAt h

/-- Whether a project is unfinished depends on its status only. -/
theorem unfinished_congr (h : g'.statusAt i = g.statusAt i) :
    g'.Unfinished i ↔ g.Unfinished i := by
  rw [Unfinished, Unfinished, h]

/-- Whether a project is lost depends on its status only. -/
theorem lost_congr (h : g'.statusAt i = g.statusAt i) : g'.Lost i ↔ g.Lost i := by
  rw [Lost, Lost, h]

/-! ## The shape -/

/-- Graphs of one shape have as many projects. -/
theorem length_eq_of_shape (h : g'.shape = g.shape) : g'.nodes.length = g.nodes.length := by
  simpa [shape] using congrArg List.length h

/-- What can be read off the shape of a node agrees in graphs of one shape. -/
private theorem map_shape_eq {α : Type} (h : g'.shape = g.shape) (i : Nat)
    (ψ : Project × List Nat × List Nat → α) :
    g'.nodes[i]?.map (ψ ∘ ProjectNode.shape) = g.nodes[i]?.map (ψ ∘ ProjectNode.shape) := by
  have key (g : ProjectGraph) : g.nodes[i]?.map (ψ ∘ ProjectNode.shape) = g.shape[i]?.map ψ := by
    rw [shape, List.getElem?_map, Option.map_map]
  rw [key, key, h]

/-- Graphs of one shape have the same projects. -/
theorem projectAt?_eq_of_shape (h : g'.shape = g.shape) (i : Nat) :
    g'.projectAt? i = g.projectAt? i :=
  map_shape_eq h i Prod.fst

/-- Graphs of one shape have the same dependencies. -/
theorem dependenciesAt_eq_of_shape (h : g'.shape = g.shape) (i : Nat) :
    g'.dependenciesAt i = g.dependenciesAt i := by
  rw [dependenciesAt_eq, dependenciesAt_eq]
  exact congrArg (Option.getD · []) (map_shape_eq h i (·.2.1))

/-- Graphs of one shape have the same dependents. -/
theorem dependentsAt_eq_of_shape (h : g'.shape = g.shape) (i : Nat) :
    g'.dependentsAt i = g.dependentsAt i := by
  rw [dependentsAt_eq, dependentsAt_eq]
  exact congrArg (Option.getD · []) (map_shape_eq h i (·.2.2))

/-! ## Changing a node -/

section Change

variable {f : ProjectNode → ProjectNode}

/-- Only the node with the number is changed. -/
theorem getElem?_modifyAt (g : ProjectGraph) (i : Nat) (f : ProjectNode → ProjectNode) (k : Nat) :
    (g.modifyAt i f).nodes[k]? = if k = i then g.nodes[k]?.map f else g.nodes[k]? := by
  rw [modifyAt, List.getElem?_modify]
  by_cases h : k = i
  · simp [h]
  · simp [h, Ne.symm h]

/-- What a change keeps of a node, it keeps of all. -/
theorem map_getElem?_modifyAt {α : Type} {φ : ProjectNode → α} (h : ∀ n, φ (f n) = φ n)
    (k : Nat) : (g.modifyAt i f).nodes[k]?.map φ = g.nodes[k]?.map φ := by
  rw [getElem?_modifyAt]
  split
  · rw [Option.map_map, show φ ∘ f = φ from funext h]
  · rfl

/-- A change that appends to a list of one node appends to that node's list only. -/
private theorem getD_getElem?_modifyAt {φ : ProjectNode → List Nat} {is : List Nat}
    (h : ∀ n, φ (f n) = φ n ++ is) (hi : i < g.nodes.length) (k : Nat) :
    ((g.modifyAt i f).nodes[k]?.map φ).getD [] =
      if k = i then (g.nodes[i]?.map φ).getD [] ++ is else (g.nodes[k]?.map φ).getD [] := by
  rw [getElem?_modifyAt]
  by_cases hk : k = i
  · rw [if_pos hk, if_pos hk, hk, List.getElem?_eq_getElem hi]
    exact h _
  · rw [if_neg hk, if_neg hk]

/-- A change that keeps projects and edges keeps the shape. -/
theorem shape_modifyAt (h : ∀ n, (f n).shape = n.shape) : (g.modifyAt i f).shape = g.shape := by
  refine List.ext_getElem? fun k => ?_
  rw [shape, List.getElem?_map, map_getElem?_modifyAt h, ← List.getElem?_map, shape]

end Change

/-! ## Finishing a project -/

/-- What has finished, or is no project at all, stays as it is. -/
theorem finish_of_not_unfinished (h : ¬ g.Unfinished i) (s : ProjectStatus) :
    g.finish i s = g := by
  unfold finish
  split
  · rfl
  · next n hn =>
    rw [unfinished_iff_of_getElem? hn, Bool.not_eq_false] at h
    rw [if_pos h]

/-- An unfinished project gets its status, and is counted. -/
theorem finish_of_unfinished (h : g.Unfinished i) (s : ProjectStatus) :
    g.finish i s =
      { g.modifyAt i fun n => { n with status := s, environment := none } with
        finishedCount := g.finishedCount + 1 } := by
  have hlt := h.lt_length
  have hget := List.getElem?_eq_getElem hlt
  rw [unfinished_iff_of_getElem? hget] at h
  unfold finish modifyAt
  rw [hget]
  simp only [h, Bool.false_eq_true, if_false, ProjectGraph.mk.injEq, and_self, and_true]
  -- `finish` sets the node anew where `modifyAt` changes it in place.
  refine List.ext_getElem? fun k => ?_
  rw [List.getElem?_set, List.getElem?_modify]
  by_cases hk : i = k
  · subst hk
    simp [hlt]
  · simp [hk]

/-- Finishing one project does not touch the others. -/
theorem getElem?_finish_of_ne (h : k ≠ i) (s : ProjectStatus) :
    (g.finish i s).nodes[k]? = g.nodes[k]? := by
  by_cases hi : g.Unfinished i
  · rw [finish_of_unfinished hi]
    exact (getElem?_modifyAt ..).trans (if_neg h)
  · rw [finish_of_not_unfinished hi]

/-- A project that finishes changes the status of no other one. -/
theorem statusAt_finish_of_ne (h : k ≠ i) (s : ProjectStatus) :
    (g.finish i s).statusAt k = g.statusAt k := by
  rw [statusAt, getElem?_finish_of_ne h, statusAt]

/-- An unfinished project finishes with the given status. -/
theorem statusAt_finish_self (h : g.Unfinished i) (s : ProjectStatus) :
    (g.finish i s).statusAt i = some s := by
  have hget := List.getElem?_eq_getElem h.lt_length
  rw [finish_of_unfinished h, statusAt]
  simp [getElem?_modifyAt, hget]

/-- What was asked to finish has finished, now or before. -/
theorem not_unfinished_finish_self (hs : s.isFinished = true) :
    ¬ (g.finish i s).Unfinished i := by
  by_cases hi : g.Unfinished i
  · rw [Unfinished, statusAt_finish_self hi]
    rintro (h | h) <;> cases h <;> cases hs
  · rwa [finish_of_not_unfinished hi]

/-- Finishing a project changes neither projects nor edges. -/
@[simp]
theorem shape_finish (g : ProjectGraph) (i : Nat) (s : ProjectStatus) :
    (g.finish i s).shape = g.shape := by
  by_cases hi : g.Unfinished i
  · rw [finish_of_unfinished hi]
    exact shape_modifyAt fun _ => rfl
  · rw [finish_of_not_unfinished hi]

/-- Finishing a project does not change what is waited for. -/
@[simp]
theorem outstandingAt_finish (g : ProjectGraph) (i : Nat) (s : ProjectStatus) (k : Nat) :
    (g.finish i s).outstandingAt k = g.outstandingAt k := by
  by_cases hi : g.Unfinished i
  · rw [finish_of_unfinished hi]
    change ((g.modifyAt i _).nodes[k]?.map _).getD [] = _
    rw [map_getElem?_modifyAt, outstandingAt]
    exact fun _ => rfl
  · rw [finish_of_not_unfinished hi]

/-- Finishing a project does not set the flag yet. -/
@[simp]
theorem finished_finish (g : ProjectGraph) (i : Nat) (s : ProjectStatus) :
    (g.finish i s).finished = g.finished := by
  by_cases hi : g.Unfinished i
  · rw [finish_of_unfinished hi]
    rfl
  · rw [finish_of_not_unfinished hi]

/-! ## Noting that all have finished -/

/-- Noting that all have finished changes no project. -/
@[simp]
theorem nodes_updateFinished (g : ProjectGraph) : g.updateFinished.nodes = g.nodes := by
  unfold updateFinished
  split <;> rfl

/-- Noting that all have finished changes no number. -/
@[simp]
theorem finishedCount_updateFinished (g : ProjectGraph) :
    g.updateFinished.finishedCount = g.finishedCount := by
  unfold updateFinished
  split <;> rfl

/-- Noting that all have finished changes no status. -/
@[simp]
theorem statusAt_updateFinished (g : ProjectGraph) (k : Nat) :
    g.updateFinished.statusAt k = g.statusAt k := by
  rw [statusAt, nodes_updateFinished, statusAt]

/-- Noting that all have finished does not change what is waited for. -/
@[simp]
theorem outstandingAt_updateFinished (g : ProjectGraph) (k : Nat) :
    g.updateFinished.outstandingAt k = g.outstandingAt k := by
  rw [outstandingAt, nodes_updateFinished, outstandingAt]

/-- Noting that all have finished changes neither projects nor edges. -/
@[simp]
theorem shape_updateFinished (g : ProjectGraph) : g.updateFinished.shape = g.shape := by
  rw [shape, nodes_updateFinished, shape]

/-! ## Releasing dependents -/

/-- Takes a project from what another one waits for. -/
def releaseAt (g : ProjectGraph) (i j : Nat) : ProjectGraph :=
  g.modifyAt j fun n => { n with outstanding := n.outstanding.filter (· ≠ i) }

/-- Only the one project waits for less. -/
private theorem outstandingAt_releaseAt (g : ProjectGraph) (i j k : Nat) :
    (g.releaseAt i j).outstandingAt k =
      if k = j then (g.outstandingAt k).filter (· ≠ i) else g.outstandingAt k := by
  rw [outstandingAt, releaseAt, getElem?_modifyAt, outstandingAt]
  by_cases hk : k = j
  · rw [if_pos hk, if_pos hk]
    cases g.nodes[k]? <;> rfl
  · rw [if_neg hk, if_neg hk]

/-- Released one after the other, some projects wait for `i` no longer. -/
private theorem outstandingAt_foldl_releaseAt (g : ProjectGraph) (i : Nat) (is : List Nat)
    (k : Nat) :
    (is.foldl (·.releaseAt i ·) g).outstandingAt k =
      if k ∈ is then (g.outstandingAt k).filter (· ≠ i) else g.outstandingAt k := by
  induction is generalizing g with
  | nil => simp
  | cons j is ih =>
    rw [List.foldl_cons, ih, outstandingAt_releaseAt]
    by_cases hj : k = j
    · subst hj
      simp
    · simp [hj]

/-- The dependents of a project wait for it no longer. -/
theorem outstandingAt_release (g : ProjectGraph) (i k : Nat) :
    (g.release i).outstandingAt k =
      if k ∈ g.dependentsAt i then (g.outstandingAt k).filter (· ≠ i) else g.outstandingAt k :=
  outstandingAt_foldl_releaseAt g i _ k

/-- What every single release keeps, releasing all dependents keeps. -/
private theorem release_keeps {α : Type} (view : ProjectGraph → α)
    (h : ∀ g j, view (releaseAt g i j) = view g) (g : ProjectGraph) :
    view (g.release i) = view g := by
  change view ((g.dependentsAt i).foldl (·.releaseAt i ·) g) = view g
  generalize g.dependentsAt i = is
  induction is generalizing g with
  | nil => rfl
  | cons j is ih => rw [List.foldl_cons, ih, h]

/-- Releasing dependents changes neither projects nor edges. -/
@[simp]
theorem shape_release (g : ProjectGraph) (i : Nat) : (g.release i).shape = g.shape :=
  release_keeps shape (fun _ _ => shape_modifyAt fun _ => rfl) g

/-- Releasing dependents changes no status. -/
@[simp]
theorem statusAt_release (g : ProjectGraph) (i k : Nat) :
    (g.release i).statusAt k = g.statusAt k := by
  refine release_keeps (·.statusAt k) (fun g j => ?_) g
  unfold statusAt releaseAt
  rw [map_getElem?_modifyAt]
  exact fun _ => rfl

/-- Releasing dependents changes no environment. -/
@[simp]
theorem environmentAt?_release (g : ProjectGraph) (i k : Nat) :
    (g.release i).environmentAt? k = g.environmentAt? k := by
  refine release_keeps (·.environmentAt? k) (fun g j => ?_) g
  unfold environmentAt? releaseAt
  rw [map_getElem?_modifyAt]
  exact fun _ => rfl

/-- Releasing dependents changes no number. -/
@[simp]
theorem finishedCount_release (g : ProjectGraph) (i : Nat) :
    (g.release i).finishedCount = g.finishedCount :=
  release_keeps finishedCount (fun _ _ => rfl) g

/-- Releasing dependents does not touch the flag. -/
@[simp]
theorem finished_release (g : ProjectGraph) (i : Nat) : (g.release i).finished = g.finished :=
  release_keeps finished (fun _ _ => rfl) g

/-! ## Linking two projects -/

/-- Notes a dependency at the project that has it. -/
def linkFrom (g : ProjectGraph) (i j : Nat) (waits : Bool) : ProjectGraph :=
  g.modifyAt i fun n =>
    { n with
      dependencies := n.dependencies ++ [j]
      outstanding := if waits then n.outstanding ++ [j] else n.outstanding }

/-- Notes a dependent at the project it depends on. -/
def linkTo (g : ProjectGraph) (i j : Nat) : ProjectGraph :=
  g.modifyAt j fun n => { n with dependents := n.dependents ++ [i] }

/-- An edge is noted at one end, and then at the other. -/
theorem link_eq (g : ProjectGraph) (i j : Nat) (waits : Bool) :
    g.link i j waits = (g.linkFrom i j waits).linkTo i j := rfl

section Link

variable (g i j) (waits : Bool) (k : Nat)

/-- What has to do with neither edges nor waiting is not changed by a link. -/
private theorem map_getElem?_link {α : Type} (φ : ProjectNode → α)
    (hfrom : ∀ n ds os, φ { n with dependencies := ds, outstanding := os } = φ n)
    (hto : ∀ n ds, φ { n with dependents := ds } = φ n) :
    (g.link i j waits).nodes[k]?.map φ = g.nodes[k]?.map φ := by
  rw [link_eq, linkTo, map_getElem?_modifyAt fun n => hto n _]
  exact map_getElem?_modifyAt (fun n => hfrom n _ _) k

/-- An edge changes no status. -/
@[simp]
theorem statusAt_link : (g.link i j waits).statusAt k = g.statusAt k :=
  map_getElem?_link g i j waits k ProjectNode.status (fun _ _ _ => rfl) fun _ _ => rfl

/-- An edge changes no project. -/
@[simp]
theorem projectAt?_link : (g.link i j waits).projectAt? k = g.projectAt? k :=
  map_getElem?_link g i j waits k ProjectNode.project (fun _ _ _ => rfl) fun _ _ => rfl

/-- An edge changes no environment. -/
@[simp]
theorem environmentAt?_link : (g.link i j waits).environmentAt? k = g.environmentAt? k :=
  congrArg Option.join
    (map_getElem?_link g i j waits k ProjectNode.environment (fun _ _ _ => rfl) fun _ _ => rfl)

/-- An edge adds no project. -/
@[simp]
theorem length_nodes_link : (g.link i j waits).nodes.length = g.nodes.length := by
  simp [link, modifyAt]

/-- An edge is the last dependency of the project that has it. -/
theorem dependenciesAt_link (hi : i < g.nodes.length) :
    (g.link i j waits).dependenciesAt k =
      if k = i then g.dependenciesAt i ++ [j] else g.dependenciesAt k := by
  simp only [dependenciesAt_eq]
  rw [link_eq, linkTo, map_getElem?_modifyAt fun _ => by rfl]
  exact getD_getElem?_modifyAt (fun _ => by rfl) hi k

/-- If a project waits for the other end of an edge, it waits for that last. -/
theorem outstandingAt_link (hi : i < g.nodes.length) :
    (g.link i j waits).outstandingAt k =
      if k = i ∧ waits then g.outstandingAt i ++ [j] else g.outstandingAt k := by
  unfold outstandingAt
  rw [link_eq, linkTo, map_getElem?_modifyAt fun _ => by rfl, linkFrom]
  cases waits with
  | true => simpa using getD_getElem?_modifyAt (fun _ => by rfl) hi k
  | false => simp [map_getElem?_modifyAt]

/-- An edge is the last dependent of the project at its other end. -/
theorem dependentsAt_link (hj : j < g.nodes.length) :
    (g.link i j waits).dependentsAt k =
      if k = j then g.dependentsAt j ++ [i] else g.dependentsAt k := by
  simp only [dependentsAt_eq]
  have hj' : j < (g.linkFrom i j waits).nodes.length := by simpa [linkFrom, modifyAt] using hj
  have hfrom (m : Nat) : (g.linkFrom i j waits).nodes[m]?.map ProjectNode.dependents =
      g.nodes[m]?.map ProjectNode.dependents :=
    map_getElem?_modifyAt (fun _ => by rfl) m
  rw [link_eq, ← hfrom, ← hfrom]
  exact getD_getElem?_modifyAt (fun _ => by rfl) hj' k

end Link

end ProjectGraph

end BuildEngine
