import BuildEngine.Proofs.Graph.Accounting

/-!
# Consistent graphs

What the nodes of a graph say about each other fits together: an edge is known at both of its
ends, edges close no cycle, and a waiting project waits for exactly those of its dependencies that
are unfinished. Every change of a graph keeps it consistent, whatever is reported about which
project.

A search that gives up a project stops at everything that has been started. That it misses no
waiting project is `Consistent.giveUp`: whoever waits for a project that is given up is behind it
and waits, so the search gets there.
-/

namespace BuildEngine.ProjectGraph

open Relation

variable {g g' : ProjectGraph} {i j k : Nat} {s : ProjectStatus}

/-- The projects are different, and their edges fit together. -/
structure WellShaped (g : ProjectGraph) : Prop where
  /-- An edge is known at both of its ends. -/
  mirrored : ∀ i j, j ∈ g.dependentsAt i ↔ g.Needs j i
  /-- No project rests on itself. -/
  acyclic : g.Acyclic
  /-- No two projects have the same file. -/
  distinct : ∀ i j p q, g.projectAt? i = some p → g.projectAt? j = some q →
    p.file.same q.file = true → i = j

/-- A waiting project waits for exactly its unfinished dependencies. -/
def WaitsRightly (g : ProjectGraph) : Prop :=
  ∀ i, g.statusAt i = some .todo →
    ∀ j, j ∈ g.outstandingAt i ↔ g.Needs i j ∧ g.Unfinished j

/-- What a graph says about its projects fits together. -/
structure Consistent (g : ProjectGraph) : Prop extends g.WellShaped, g.Accounted where
  /-- Nobody waits in vain, and nobody starts too early. -/
  waitsRightly : g.WaitsRightly

/-! ## The shape -/

/-- Only projects and edges matter to the shape. -/
theorem WellShaped.of_shape (h : g.WellShaped) (hshape : g'.shape = g.shape) :
    g'.WellShaped where
  mirrored i j := by
    rw [dependentsAt_eq_of_shape hshape, needs_eq_of_shape hshape]
    exact h.mirrored i j
  acyclic := acyclic_of_shape hshape h.acyclic
  distinct i j p q := by
    rw [projectAt?_eq_of_shape hshape, projectAt?_eq_of_shape hshape]
    exact h.distinct i j p q

/-- What is needed is a project. -/
theorem WellShaped.lt_length_of_needs (h : g.WellShaped) (hij : g.Needs i j) :
    j < g.nodes.length :=
  lt_length_of_mem_dependentsAt ((h.mirrored j i).2 hij)

/-- The number of a project is found by its file. -/
theorem WellShaped.index?_eq_some_iff (h : g.WellShaped) (file : Path) :
    g.index? file = some i ↔ ∃ p, g.projectAt? i = some p ∧ p.file.same file = true := by
  constructor
  · intro hi
    obtain ⟨n, hn, hfile⟩ := exists_getElem?_of_index? hi
    exact ⟨n.project, projectAt?_of_getElem? hn, hfile⟩
  -- The first node with the file is found, and no second one has it.
  · rintro ⟨p, hp, hfile⟩
    cases hindex : g.index? file with
    | none =>
      obtain ⟨n, hn, rfl⟩ := Option.map_eq_some_iff.1 hp
      have := List.findIdx?_eq_none_iff.1 hindex n (List.mem_of_getElem? hn)
      rw [hfile] at this
      cases this
    | some j =>
      obtain ⟨n, hn, hfile'⟩ := exists_getElem?_of_index? hindex
      have hsame : n.project.file.same p.file = true :=
        Path.same_iff.2 ((Path.same_iff.1 hfile').trans (Path.same_iff.1 hfile).symm)
      rw [h.distinct j i n.project p (projectAt?_of_getElem? hn) hp hsame]

/-- An empty graph is well shaped. -/
theorem wellShaped_empty : WellShaped .empty where
  mirrored i j := by simp [dependentsAt, Needs, dependenciesAt, ProjectGraph.empty]
  acyclic i hi := by
    obtain ⟨j, hij, -⟩ := TransGen.head'_iff.1 hi
    simp [Needs, dependenciesAt, ProjectGraph.empty] at hij
  distinct i j p q hp := by simp [projectAt?, ProjectGraph.empty] at hp

/-- A new project has no edges yet. -/
theorem WellShaped.register (h : g.WellShaped) {project : Project}
    (hnew : g.index? project.file = none) (environment : Environment) :
    (g.register project environment).WellShaped where
  mirrored i j := by
    rw [dependentsAt_register, needs_register]
    exact h.mirrored i j
  acyclic := by
    rw [Acyclic, RestsOn, needs_register]
    exact h.acyclic
  distinct i j p q hp hq hpq := by
    have hold (i : Nat) (p : Project) (hp : g.projectAt? i = some p) :
        p.file.same project.file ≠ true := by
      intro hsame
      rw [(h.index?_eq_some_iff project.file).2 ⟨p, hp, hsame⟩] at hnew
      cases hnew
    rw [projectAt?_register] at hp hq
    -- The new project differs from every old one in its file, and two old ones in theirs.
    by_cases hi : i = g.nodes.length <;> by_cases hj : j = g.nodes.length
    · rw [hi, hj]
    · rw [if_pos hi, Option.some.injEq] at hp
      rw [if_neg hj] at hq
      subst hp
      exact absurd ((Path.same_comm ..).trans hpq) (hold j q hq)
    · rw [if_neg hi] at hp
      rw [if_pos hj, Option.some.injEq] at hq
      subst hq
      exact absurd hpq (hold i p hp)
    · rw [if_neg hi] at hp
      rw [if_neg hj] at hq
      exact h.distinct i j p q hp hq hpq

/-- An edge that closes no cycle fits to the others. -/
theorem WellShaped.link (h : g.WellShaped) (hi : i < g.nodes.length) (hj : j < g.nodes.length)
    (hacyclic : ¬ ReflTransGen g.Needs j i) (waits : Bool) : (g.link i j waits).WellShaped where
  mirrored a b := by
    rw [dependentsAt_link g i j waits a hj, Needs, dependenciesAt_link g i j waits b hi]
    have hold (a b : Nat) : b ∈ g.dependentsAt a ↔ a ∈ g.dependenciesAt b := h.mirrored a b
    by_cases ha : a = j <;> by_cases hb : b = i <;> simp [ha, hb, hold]
  acyclic := h.acyclic.link hi hacyclic waits
  distinct a b p q := by
    rw [projectAt?_link, projectAt?_link]
    exact h.distinct a b p q

/-! ## Giving a project up -/

/-- What waits after a project was given up waited before, and is not behind that project. -/
theorem todo_of_giveUp (hs : s.isFinished = true)
    (hk : (g.giveUp i s).statusAt k = some .todo) :
    k ≠ i ∧ g.statusAt k = some .todo ∧ ¬ (g.finish i s).CutOff [i] k := by
  rw [statusAt_giveUp] at hk
  split at hk
  · cases hk
  · next hcut =>
    have hki : k ≠ i := by
      rintro rfl
      exact not_unfinished_finish_self hs (.inl hk)
    rw [statusAt_finish_of_ne hki] at hk
    exact ⟨hki, hk, hcut⟩

/-- The status of a project that is neither given up nor behind the one that is. -/
theorem statusAt_giveUp_of_not_cutOff (hji : j ≠ i) (hcut : ¬ (g.finish i s).CutOff [i] j) :
    (g.giveUp i s).statusAt j = g.statusAt j := by
  rw [statusAt_giveUp, if_neg hcut, statusAt_finish_of_ne hji]

/-- What does not wait keeps its status when another project is given up. -/
theorem statusAt_giveUp_of_ne_todo (hji : j ≠ i) (hj : g.statusAt j ≠ some .todo) :
    (g.giveUp i s).statusAt j = g.statusAt j := by
  refine statusAt_giveUp_of_not_cutOff hji fun hcut => hj ?_
  rw [← statusAt_finish_of_ne hji s]
  exact hcut.statusAt

/-- What is unfinished after a project was given up was so before, and is another one. -/
theorem unfinished_of_giveUp (hs : s.isFinished = true) (hj : (g.giveUp i s).Unfinished j) :
    j ≠ i ∧ g.Unfinished j := by
  by_cases hcut : (g.finish i s).CutOff [i] j
  · rw [Unfinished, statusAt_giveUp, if_pos hcut] at hj
    rcases hj with hj | hj <;> cases hj
  · rw [unfinished_congr ((statusAt_giveUp g i s j).trans (if_neg hcut))] at hj
    have hji : j ≠ i := by
      rintro rfl
      exact not_unfinished_finish_self hs hj
    exact ⟨hji, (unfinished_congr (statusAt_finish_of_ne hji s)).1 hj⟩

/-- Whoever needs a project that is given up, or one that is skipped with it, is skipped too if it
waits. -/
theorem WellShaped.cutOff_of_needs (h : g.WellShaped) (hki : k ≠ i)
    (hk : g.statusAt k = some .todo) (hkj : g.Needs k j)
    (hj : j = i ∨ (g.finish i s).CutOff [i] j) : (g.finish i s).CutOff [i] k := by
  have hpass : (g.finish i s).PassesOn j k := by
    refine ⟨?_, (statusAt_finish_of_ne hki s).trans hk⟩
    rw [dependentsAt_eq_of_shape (shape_finish g i s)]
    exact (h.mirrored j k).2 hkj
  rcases hj with rfl | hj
  · exact ⟨j, List.mem_singleton_self j, .single hpass⟩
  · exact hj.tail hpass

/-- A project that failed is waited for no longer, as what waits for it has been skipped. -/
theorem WaitsRightly.giveUp (h : g.WaitsRightly) (hshape : g.WellShaped) (i : Nat)
    (hs : s.isFinished = true) : (g.giveUp i s).WaitsRightly := by
  intro k hk j
  obtain ⟨hki, htodo, hcut⟩ := todo_of_giveUp hs hk
  rw [outstandingAt_giveUp, needs_eq_of_shape (shape_giveUp g i s), h k htodo j]
  refine and_congr_right fun hkj => ⟨fun hj => ?_, fun hj => (unfinished_of_giveUp hs hj).2⟩
  -- What `k` needs is still unfinished: otherwise `k` would have been skipped with it.
  have hji : j ≠ i := fun hji => hcut (hshape.cutOff_of_needs hki htodo hkj (.inl hji))
  have hjcut : ¬ (g.finish i s).CutOff [i] j := fun hj =>
    hcut (hshape.cutOff_of_needs hki htodo hkj (.inr hj))
  exact (unfinished_congr (statusAt_giveUp_of_not_cutOff hji hjcut)).2 hj

/-! ## The other changes -/

/-- A new project waits for nothing, and nothing waits for it. -/
theorem WaitsRightly.register (h : g.WaitsRightly) (hshape : g.WellShaped) (project : Project)
    (environment : Environment) : (g.register project environment).WaitsRightly := by
  intro k hk j
  rw [outstandingAt_register, needs_register]
  rw [statusAt_register] at hk
  -- What `k` needs was registered before it, so its status is the old one.
  have hneeds (hkj : g.Needs k j) :
      (g.register project environment).Unfinished j ↔ g.Unfinished j := by
    refine unfinished_congr ?_
    rw [statusAt_register, if_neg (hshape.lt_length_of_needs hkj).ne]
  by_cases hlength : k = g.nodes.length
  · -- The new project waits for nothing and needs nothing.
    have hnone : g.nodes[k]? = none := List.getElem?_eq_none hlength.ge
    have hout : g.outstandingAt k = [] := by
      rw [outstandingAt, hnone]
      rfl
    have hneedsNone : ¬ g.Needs k j := by
      intro hkj
      exact hkj.lt_length.ne hlength
    simp [hout, hneedsNone]
  · rw [if_neg hlength] at hk
    rw [h k hk j]
    exact and_congr_right fun hkj => (hneeds hkj).symm

/-- A project that is handed out waits for nothing. -/
theorem WaitsRightly.handOut (h : g.WaitsRightly) (hi : g.statusAt i = some .todo) :
    (g.handOut i).WaitsRightly := by
  have hlt := lt_length_of_statusAt hi
  intro k hk j
  rw [statusAt_handOut hlt] at hk
  have hki : k ≠ i := by
    rintro rfl
    rw [if_pos rfl] at hk
    cases hk
  rw [if_neg hki] at hk
  rw [outstandingAt_handOut, needs_eq_of_shape (shape_handOut g i), h k hk j]
  refine and_congr_right fun _ => ?_
  -- The project that starts was unfinished and stays so.
  rw [Unfinished, Unfinished, statusAt_handOut hlt]
  by_cases hji : j = i
  · simp [hji, hi]
  · rw [if_neg hji]

/-- A project that succeeded is waited for no longer. -/
theorem WaitsRightly.succeed (h : g.WaitsRightly) (hshape : g.WellShaped) (i : Nat) :
    (g.succeed i).WaitsRightly := by
  intro k hk j
  rw [statusAt_succeed] at hk
  have hki : k ≠ i := by
    rintro rfl
    exact not_unfinished_finish_self rfl (.inl hk)
  rw [statusAt_finish_of_ne hki] at hk
  have hmirror : i ∈ g.outstandingAt k → k ∈ g.dependentsAt i := fun hik =>
    (hshape.mirrored i k).2 ((h k hk i).1 hik).1
  rw [mem_outstandingAt_succeed_iff hmirror, h k hk j, needs_eq_of_shape (shape_succeed g i),
    and_assoc]
  refine and_congr_right fun _ => ?_
  -- Of what `k` needs, only the project that succeeded is no longer unfinished.
  by_cases hji : j = i
  · subst hji
    have hfin : ¬ (g.succeed j).Unfinished j := by
      rw [unfinished_congr (statusAt_succeed g j j)]
      exact not_unfinished_finish_self rfl
    simp [hfin]
  · rw [unfinished_congr ((statusAt_succeed g i j).trans (statusAt_finish_of_ne hji _))]
    simp [hji]

/-- A link keeps the waiting right if it waits exactly for an unfinished end. -/
theorem WaitsRightly.link (h : g.WaitsRightly) (hi : i < g.nodes.length) {waits : Bool}
    (hwaits : waits = true ↔ g.Unfinished j) : (g.link i j waits).WaitsRightly := by
  intro k hk m
  rw [statusAt_link] at hk
  rw [outstandingAt_link g i j waits k hi, Needs, dependenciesAt_link g i j waits k hi,
    unfinished_congr (statusAt_link g i j waits m)]
  have hold := h k hk m
  rw [Needs] at hold
  by_cases hki : k = i
  · subst hki
    -- Only the new end of the link can make a difference.
    by_cases hm : m = j
    · subst hm
      cases waits with
      | true => simp [hwaits.1 rfl]
      | false =>
        have hm : ¬ g.Unfinished m := fun hm => by cases hwaits.2 hm
        simp [hm, hold]
    · cases waits <;> simp [hm, hold]
  · simp [hki, hold]

/-! ## Consistency -/

/-- An empty graph is consistent. -/
theorem consistent_empty : Consistent .empty where
  toWellShaped := wellShaped_empty
  toAccounted := accounted_empty
  waitsRightly i hi := by simp [statusAt, ProjectGraph.empty] at hi

/-- A graph stays consistent when a new project is added. -/
theorem Consistent.register (h : g.Consistent) {project : Project}
    (hnew : g.index? project.file = none) (environment : Environment) :
    (g.register project environment).Consistent where
  toWellShaped := h.toWellShaped.register hnew environment
  toAccounted := h.toAccounted.register project environment
  waitsRightly := h.waitsRightly.register h.toWellShaped project environment

/-- A graph stays consistent when a project is handed out. -/
theorem Consistent.handOut (h : g.Consistent) (hi : g.statusAt i = some .todo) :
    (g.handOut i).Consistent where
  toWellShaped := h.toWellShaped.of_shape (shape_handOut g i)
  toAccounted := h.toAccounted.handOut hi
  waitsRightly := h.waitsRightly.handOut hi

/-- A graph stays consistent when a project succeeds. -/
theorem Consistent.succeed (h : g.Consistent) (hi : i < g.nodes.length) :
    (g.succeed i).Consistent where
  toWellShaped := h.toWellShaped.of_shape (shape_succeed g i)
  toAccounted := h.toAccounted.succeed hi
  waitsRightly := h.waitsRightly.succeed h.toWellShaped i

/-- A graph stays consistent when a project is given up. -/
theorem Consistent.giveUp (h : g.Consistent) (hi : i < g.nodes.length)
    (hs : s.isFinished = true) : (g.giveUp i s).Consistent where
  toWellShaped := h.toWellShaped.of_shape (shape_giveUp g i s)
  toAccounted := h.toAccounted.giveUp hi hs
  waitsRightly := h.waitsRightly.giveUp h.toWellShaped i hs

/-- A graph stays consistent when an edge is entered that closes no cycle. -/
theorem Consistent.link (h : g.Consistent) (hi : i < g.nodes.length) (hj : j < g.nodes.length)
    (hacyclic : ¬ ReflTransGen g.Needs j i) {waits : Bool}
    (hwaits : waits = true ↔ g.Unfinished j) : (g.link i j waits).Consistent where
  toWellShaped := h.toWellShaped.link hi hj hacyclic waits
  toAccounted := h.toAccounted.link i j waits
  waitsRightly := h.waitsRightly.link hi hwaits

/-- A graph stays consistent when a dependency is added that closes no cycle. -/
theorem Consistent.connect (h : g.Consistent) (hi : i < g.nodes.length) (hj : j < g.nodes.length)
    (hacyclic : ¬ ReflTransGen g.Needs j i) : (g.connect i j).Consistent := by
  by_cases hneeds : g.Needs i j
  · rwa [connect_of_needs hneeds]
  rcases unfinished_or_succeeded_or_lost hj with hunf | hsucc | hlost
  · rw [connect_of_unfinished hneeds hunf]
    exact h.link hi hj hacyclic (by simp [hunf])
  · rw [connect_of_succeeded hneeds hsucc]
    exact h.link hi hj hacyclic (by simp [Unfinished, hsucc])
  · rw [connect_of_lost hneeds hlost]
    have hlink : (g.link i j false).Consistent :=
      h.link hi hj hacyclic (by simpa using fun hunf => Unfinished.not_lost hunf hlost)
    exact hlink.giveUp ((length_nodes_link g i j false).symm ▸ hi) rfl

end BuildEngine.ProjectGraph
