import BuildEngine.Proofs.Graph.Operations

/-!
# Counting the finished projects

A graph keeps the number of its finished projects and a flag that all of them have finished. The
number is right in between the parts of an operation as well (`Counted`); the flag is right at its
end, because `updateFinished` comes last (`Accounted`).
-/

namespace BuildEngine.ProjectGraph

variable {g g' : ProjectGraph} {i k : Nat} {s : ProjectStatus}

/-- The statuses of all projects. -/
def statuses (g : ProjectGraph) : List ProjectStatus :=
  g.nodes.map ProjectNode.status

/-- The number of finished projects is right, and the flag is set only if all have finished. -/
structure Counted (g : ProjectGraph) : Prop where
  /-- The number counts the final statuses. -/
  count : g.finishedCount = g.statuses.countP ProjectStatus.isFinished
  /-- A set flag tells the truth. -/
  noticed : g.finished = true → g.nodes ≠ [] ∧ g.finishedCount = g.nodes.length

/-- Number and flag are both right. -/
structure Accounted (g : ProjectGraph) : Prop extends g.Counted where
  /-- An unset flag tells the truth. -/
  unnoticed : g.nodes ≠ [] → g.finishedCount = g.nodes.length → g.finished = true

/-- The status of a project stands in its place. -/
theorem getElem?_statuses (g : ProjectGraph) (i : Nat) : g.statuses[i]? = g.statusAt i := by
  rw [statuses, List.getElem?_map, statusAt]

/-- There is a status for every project. -/
theorem length_statuses (g : ProjectGraph) : g.statuses.length = g.nodes.length :=
  List.length_map ..

/-- The statuses are determined by the status of each project. -/
theorem statuses_eq_of_statusAt (h : ∀ k, g'.statusAt k = g.statusAt k) :
    g'.statuses = g.statuses := by
  refine List.ext_getElem? fun k => ?_
  rw [getElem?_statuses, getElem?_statuses, h]

/-- All projects have finished exactly when there are as many finished ones as projects. -/
theorem Counted.eq_length_iff (h : g.Counted) :
    g.finishedCount = g.nodes.length ↔ ∀ i, ¬ g.Unfinished i := by
  rw [h.count, ← length_statuses, List.countP_eq_length]
  -- All statuses are final as soon as their number is that of the nodes.
  constructor
  · intro hall i hi
    have hget := List.getElem?_eq_getElem hi.lt_length
    rw [unfinished_iff_of_getElem? hget] at hi
    rw [hall _ (List.mem_map_of_mem (List.getElem_mem ..))] at hi
    cases hi
  · intro hall s hs
    obtain ⟨i, hi⟩ := List.mem_iff_getElem?.1 hs
    rw [getElem?_statuses] at hi
    have hfin := hall i
    rw [Unfinished, hi] at hfin
    cases s <;> simp_all [ProjectStatus.isFinished]

/-- A change of one status sets it in the list. -/
theorem statuses_eq_set (hi : i < g.nodes.length) (hself : g'.statusAt i = some s)
    (hothers : ∀ k, k ≠ i → g'.statusAt k = g.statusAt k) :
    g'.statuses = g.statuses.set i s := by
  refine List.ext_getElem? fun k => ?_
  rw [getElem?_statuses, List.getElem?_set, getElem?_statuses, length_statuses]
  by_cases hk : i = k
  · subst hk
    rw [if_pos rfl, if_pos hi, hself]
  · rw [if_neg hk, hothers k (Ne.symm hk)]

/-- One more project has finished when an unfinished one gets a final status. -/
theorem countP_set_statuses (hi : g.Unfinished i) (s : ProjectStatus) :
    (g.statuses.set i s).countP ProjectStatus.isFinished =
      g.statuses.countP ProjectStatus.isFinished + if s.isFinished then 1 else 0 := by
  have hlt : i < g.statuses.length := by
    rw [length_statuses]
    exact hi.lt_length
  have hold : ProjectStatus.isFinished g.statuses[i] = false := by
    have hget := List.getElem?_eq_getElem hi.lt_length
    simpa [statuses] using (unfinished_iff_of_getElem? hget).1 hi
  rw [List.countP_set hlt, hold]
  simp

/-! ## The parts of an operation -/

/-- What changes neither the statuses nor what is counted keeps the count right. -/
theorem Counted.congr (h : g.Counted) (hstatus : ∀ k, g'.statusAt k = g.statusAt k)
    (hcount : g'.finishedCount = g.finishedCount) (hfinished : g'.finished = g.finished) :
    g'.Counted := by
  have hstatuses := statuses_eq_of_statusAt hstatus
  have hlength : g'.nodes.length = g.nodes.length := by
    rw [← length_statuses, hstatuses, length_statuses]
  refine ⟨by rw [hcount, hstatuses, h.count], fun hf => ?_⟩
  rw [← List.length_pos_iff, hcount, hlength, List.length_pos_iff]
  exact h.noticed (hfinished ▸ hf)

/-- A project that finishes is counted. -/
theorem Counted.finish (h : g.Counted) (i : Nat) (hs : s.isFinished = true) :
    (g.finish i s).Counted := by
  by_cases hi : g.Unfinished i
  · have hset : (g.finish i s).statuses = g.statuses.set i s :=
      statuses_eq_set hi.lt_length (statusAt_finish_self hi s)
        fun k hk => statusAt_finish_of_ne hk s
    have hcount : (g.finish i s).finishedCount = g.finishedCount + 1 := by
      rw [finish_of_unfinished hi]
    refine ⟨?_, fun hf => ?_⟩
    · rw [hcount, hset, countP_set_statuses hi, if_pos hs, h.count]
    · -- A set flag says that nothing was unfinished before.
      rw [finished_finish] at hf
      exact absurd hi (h.eq_length_iff.1 (h.noticed hf).2 i)
  · rwa [finish_of_not_unfinished hi]

/-- Skipping what waits keeps the number right. -/
theorem Counted.skipBehind (h : g.Counted) (pending : List Nat) : (g.skipBehind pending).Counted :=
  skipBehind_keeps (fun _ i h => h.finish i rfl) h pending

/-- The flag is right once it has been looked after. -/
theorem Counted.updateFinished (h : g.Counted) (hne : g.nodes ≠ []) :
    g.updateFinished.Accounted := by
  have hflag : g.updateFinished.finished = true ↔ g.finishedCount = g.nodes.length := by
    unfold ProjectGraph.updateFinished
    cases hf : g.finished with
    | true => simp [hf, (h.noticed hf).2]
    | false => by_cases hc : g.finishedCount = g.nodes.length <;> simp [hf, hc]
  refine ⟨⟨?_, fun hf => ?_⟩, fun _ hc => ?_⟩
  · rw [finishedCount_updateFinished, statuses, nodes_updateFinished, h.count, statuses]
  · rw [nodes_updateFinished, finishedCount_updateFinished]
    exact ⟨hne, hflag.1 hf⟩
  · rw [nodes_updateFinished, finishedCount_updateFinished] at hc
    exact hflag.2 hc

/-! ## The changes of a graph -/

/-- In an empty graph number and flag are right. -/
theorem accounted_empty : Accounted .empty :=
  ⟨⟨rfl, fun h => by cases h⟩, fun h => absurd rfl h⟩

/-- A new project is unfinished, so the flag is rightly taken back. -/
theorem Accounted.register (h : g.Accounted) (project : Project) (environment : Environment) :
    (g.register project environment).Accounted := by
  have hle : g.finishedCount ≤ g.nodes.length := by
    rw [h.count, ← length_statuses]
    exact List.countP_le_length
  refine ⟨⟨?_, fun hf => ?_⟩, fun _ hc => ?_⟩
  · simp [ProjectGraph.register, statuses, h.count, ProjectStatus.isFinished]
  · cases hf
  · simp only [ProjectGraph.register, List.length_append, List.length_singleton] at hc
    omega

/-- A dependency does not touch number and flag. -/
theorem Accounted.link (h : g.Accounted) (i j : Nat) (waits : Bool) :
    (g.link i j waits).Accounted := by
  refine ⟨h.toCounted.congr (fun k => statusAt_link ..) rfl rfl, fun hne hc => ?_⟩
  rw [← List.length_pos_iff, length_nodes_link, List.length_pos_iff] at hne
  rw [length_nodes_link] at hc
  exact h.unnoticed hne hc

/-- Starting a project finishes nothing. -/
theorem Accounted.handOut (h : g.Accounted) (hi : g.statusAt i = some .todo) :
    (g.handOut i).Accounted := by
  have hunfinished : g.Unfinished i := .inl hi
  have hlength : (g.handOut i).nodes.length = g.nodes.length :=
    length_eq_of_shape (shape_handOut g i)
  have hset : (g.handOut i).statuses = g.statuses.set i .inFlight :=
    statuses_eq_set hunfinished.lt_length (statusAt_handOut_self hunfinished.lt_length)
      fun k => statusAt_handOut_of_ne hunfinished.lt_length
  refine ⟨⟨?_, fun hf => ?_⟩, fun hne hc => ?_⟩
  · rw [hset, countP_set_statuses hunfinished]
    exact h.count
  -- Something is unfinished, so neither the flag nor the counter says that all is done.
  · exact absurd hunfinished (h.eq_length_iff.1 (h.noticed hf).2 i)
  · rw [hlength] at hc
    exact absurd hunfinished (h.eq_length_iff.1 hc i)

/-- After a success number and flag are right. -/
theorem Accounted.succeed (h : g.Accounted) (hi : i < g.nodes.length) :
    (g.succeed i).Accounted := by
  have hfinish := h.toCounted.finish (s := .succeeded) i rfl
  have hrelease : ((g.finish i .succeeded).release i).Counted :=
    hfinish.congr (fun k => statusAt_release ..) (finishedCount_release ..) (finished_release ..)
  refine hrelease.updateFinished ?_
  rw [← List.length_pos_iff, length_eq_of_shape (g := g) (by simp)]
  omega

/-- After a failure number and flag are right. -/
theorem Accounted.giveUp (h : g.Accounted) (hi : i < g.nodes.length) (hs : s.isFinished = true) :
    (g.giveUp i s).Accounted := by
  refine ((h.toCounted.finish i hs).skipBehind [i]).updateFinished ?_
  rw [← List.length_pos_iff, length_eq_of_shape (g := g) (by simp)]
  omega

end BuildEngine.ProjectGraph
