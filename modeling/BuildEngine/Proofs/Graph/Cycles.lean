import BuildEngine.Proofs.Graph.HandingOut

/-!
# Edges that close no cycle

When an edge is refused (`addDependency_eq_error_iff`), and what an edge that is not refused does to
the edges there are (`needs_connect_iff`). An edge of a waiting project is refused as a cycle
exactly when its end is its beginning or rests on it, so that edges never close a cycle
(`refused_iff_cycle`); what is refused, and an edge that there is already, changes nothing.
-/

namespace BuildEngine

namespace ProjectGraph

open Relation

variable {g g' : ProjectGraph} {i j k l : Nat} {file file' : Path} {reason : GraphError}
  {op : Operation} {answer : Answer}

/-! ## What is refused -/

/-- An edge is refused if one of its ends is not registered, or its beginning has started already,
or it closes a cycle; of two reasons the one that stands first is given. -/
theorem addDependency_eq_error_iff :
    g.addDependency file file' = .error reason ↔
      (g.index? file = none ∧ reason = .notRegistered file) ∨
      ∃ i, g.index? file = some i ∧
        ((g.index? file' = none ∧ reason = .notRegistered file') ∨
        ∃ j, g.index? file' = some j ∧
          ((g.statusAt i ≠ some .todo ∧ reason = .alreadyStarted file) ∨
          (g.statusAt i = some .todo ∧ ReflTransGen g.Needs j i ∧
            reason = .cycle file file'))) := by
  -- The checks in the order of the code.
  unfold addDependency index
  cases g.index? file with
  | none => simp [bind, Except.bind, eq_comm (b := reason)]
  | some i =>
    cases g.index? file' with
    | none => simp [bind, Except.bind, eq_comm (b := reason)]
    | some j =>
      simp only [bind, Except.bind]
      by_cases htodo : g.statusAt i = some .todo
      · by_cases hcycle : ReflTransGen g.Needs j i
        · simp [htodo, closesCycle_iff.2 hcycle, hcycle, eq_comm (b := reason)]
        · simp [htodo, mt closesCycle_iff.1 hcycle, hcycle, pure, Except.pure]
      · simp [htodo, eq_comm (b := reason)]

/-! ## What is added -/

/-- Connecting two projects adds one edge, if it was not there. -/
theorem needs_connect_iff (hi : i < g.nodes.length) (hj : j < g.nodes.length) :
    (g.connect i j).Needs k l ↔ g.Needs k l ∨ (k = i ∧ l = j) := by
  by_cases hij : g.Needs i j
  · rw [connect_of_needs hij]
    refine ⟨.inl, ?_⟩
    rintro (h | ⟨rfl, rfl⟩)
    · exact h
    · exact hij
  rcases unfinished_or_succeeded_or_lost hj with hunf | hsucc | hlost
  · rw [connect_of_unfinished hij hunf, needs_link_iff hi]
  · rw [connect_of_succeeded hij hsucc, needs_link_iff hi]
  · rw [connect_of_lost hij hlost, needs_eq_of_shape (shape_giveUp ..), needs_link_iff hi]

/-- An edge that there is already changes nothing. -/
theorem perform_addDependency_of_needs (hi : g.index? file = some i) (hj : g.index? file' = some j)
    (hij : g.Needs i j) : (g.perform (.addDependency file file')).2 = g := by
  have hop := g.perform_performs (.addDependency file file')
  generalize g.perform (.addDependency file file') = result at hop
  obtain ⟨answer, g'⟩ := result
  cases hop with
  | refused => rfl
  | addDependency hi' hj' =>
    cases hi.symm.trans hi'
    cases hj.symm.trans hj'
    exact connect_of_needs hij

/-- Two registered files are the same exactly when they have the same number. -/
theorem WellShaped.same_iff (h : g.WellShaped) (hi : g.index? file = some i)
    (hj : g.index? file' = some j) : file.same file' = true ↔ i = j := by
  obtain ⟨n, hn, hfile⟩ := exists_getElem?_of_index? hi
  obtain ⟨m, hm, hfile'⟩ := exists_getElem?_of_index? hj
  rw [Path.same_iff] at hfile hfile'
  rw [Path.same_iff, ← hfile, ← hfile', ← Path.same_iff]
  constructor
  · exact h.distinct i j n.project m.project (projectAt?_of_getElem? hn) (projectAt?_of_getElem? hm)
  · rintro rfl
    cases hn.symm.trans hm
    exact Path.same_self _

end ProjectGraph

open ProjectGraph History Relation

variable {h h' : History} {file file' : Path} {i j : Nat}

/-- An edge between two registered projects stays an edge between them. -/
theorem History.Continues.needs {allowed : History → Path → Prop}
    (hh : Continues allowed h h') (hconsistent : h.graph.Consistent)
    (hi : h.graph.index? file = some i) (hj : h.graph.index? file' = some j)
    (hij : h.graph.Needs i j) :
    h'.graph.index? file = some i ∧ h'.graph.index? file' = some j ∧ h'.graph.Needs i j := by
  refine hh.graph_invariant
    (P := fun g => g.index? file = some i ∧ g.index? file' = some j ∧ g.Needs i j) ?_
    hconsistent ⟨hi, hj, hij⟩
  intro g g' op answer hg ⟨hi, hj, hij⟩ hop
  exact ⟨hop.index?_eq hg hi, hop.index?_eq hg hj, hop.needs hij⟩

/-- Whatever has been asked and reported: an edge between two registered projects of which the first
one waits is refused as a cycle exactly when the second one is the first one or rests on it, and is
recorded otherwise. So no project ever rests on itself. An edge that is refused, for whatever
reason, changes nothing, and neither does one that was added before. -/
theorem refused_iff_cycle (hh : Continues anyReport start h) :
    (∀ file file' i j, h.graph.index? file = some i → h.graph.index? file' = some j →
      h.graph.statusAt i = some .todo →
        (h.graph.addDependency file file' = .error (.cycle file file') ↔
          file.same file' = true ∨ h.graph.RestsOn j i) ∧
        (¬ (file.same file' = true ∨ h.graph.RestsOn j i) →
          ∃ g, h.graph.addDependency file file' = .ok g ∧
            ∀ k l, g.Needs k l ↔ h.graph.Needs k l ∨ (k = i ∧ l = j))) ∧
      (∀ i, ¬ h.graph.RestsOn i i) ∧
      (∀ file file' reason, h.graph.addDependency file file' = .error reason →
        (reason = .notRegistered file ∨ reason = .notRegistered file' ∨
          reason = .alreadyStarted file ∨ reason = .cycle file file') ∧
        h.graph.perform (.addDependency file file') = (.refused reason, h.graph)) ∧
      ∀ file file' g, h.graph.addDependency file file' = .ok g →
        ∀ h', Continues anyReport (h.next (.addDependency file file')) h' →
          (h'.graph.perform (.addDependency file file')).2 = h'.graph := by
  have hconsistent := hh.consistent
  refine ⟨fun file file' i j hi hj htodo => ?_, hconsistent.acyclic,
    fun file file' reason hrefused => ?_, fun file file' g hadded h' hh' => ?_⟩
  · have hcycle : file.same file' = true ∨ h.graph.RestsOn j i ↔
        ReflTransGen h.graph.Needs j i := by
      rw [hconsistent.same_iff hi hj, reflTransGen_iff_eq_or_transGen, RestsOn]
    rw [hcycle]
    refine ⟨?_, fun hacyclic => ?_⟩
    · rw [addDependency_eq_error_iff]
      simp [hi, hj, htodo]
    · refine ⟨h.graph.connect i j,
        addDependency_eq_ok_iff.2 ⟨i, j, hi, hj, htodo, hacyclic, rfl⟩, fun k l => ?_⟩
      exact needs_connect_iff (lt_length_of_index? hi) (lt_length_of_index? hj)
  · constructor
    · rcases addDependency_eq_error_iff.1 hrefused with
        ⟨-, heq⟩ | ⟨i, -, ⟨-, heq⟩ | ⟨j, -, ⟨-, heq⟩ | ⟨-, -, heq⟩⟩⟩ <;> simp [heq]
    · rw [perform, hrefused, settle]
  · obtain ⟨i, j, hi, hj, -, -, rfl⟩ := addDependency_eq_ok_iff.1 hadded
    have hop := h.graph.perform_performs (.addDependency file file')
    have hgraph : (h.next (.addDependency file file')).graph = h.graph.connect i j := by
      simp only [next, perform, hadded, settle]
    have hij : (h.graph.connect i j).Needs i j :=
      (needs_connect_iff (lt_length_of_index? hi) (lt_length_of_index? hj)).2 (.inr ⟨rfl, rfl⟩)
    -- The edge is there from now on.
    obtain ⟨hi', hj', hij'⟩ := hh'.needs (hconsistent.performs hop) (hop.index?_eq hconsistent hi)
      (hop.index?_eq hconsistent hj) (hgraph ▸ hij)
    exact perform_addDependency_of_needs hi' hj' hij'

/-- When an app waits for a library, the library cannot be made to wait for the app, and to let the
app wait for the library once more changes nothing. -/
theorem refused_iff_cycle_app_on_lib :
    Continues anyReport start appOnLib ∧
      appOnLib.graph.addDependency ⟨"/lib"⟩ ⟨"/app"⟩ = .error (.cycle ⟨"/lib"⟩ ⟨"/app"⟩) ∧
      appOnLib.graph.perform (.addDependency ⟨"/lib"⟩ ⟨"/app"⟩) =
        (.refused (.cycle ⟨"/lib"⟩ ⟨"/app"⟩), appOnLib.graph) ∧
      (appOnLib.graph.perform (.addDependency ⟨"/app"⟩ ⟨"/lib"⟩)).2 = appOnLib.graph := by
  have hh : Continues anyReport start appOnLib := continues_appOnLib anyReport
  have hgraph : appOnLib.graph = appOnLibGraph := by rw [appOnLib_eq]
  have hneeds : appOnLib.graph.Needs 0 1 := by
    rw [hgraph]
    exact List.mem_singleton_self 1
  have hcycle : appOnLib.graph.addDependency ⟨"/lib"⟩ ⟨"/app"⟩ =
      .error (.cycle ⟨"/lib"⟩ ⟨"/app"⟩) := by
    refine ((refused_iff_cycle hh).1 ⟨"/lib"⟩ ⟨"/app"⟩ 1 0 ?_ ?_ ?_).1.2 (.inr (.single hneeds)) <;>
      rw [hgraph] <;> decide
  -- The history before the app was told to wait for the library.
  have hregistered : Continues anyReport start ((start.next (.add (bareProject "/app") .empty)).next
      (.add (bareProject "/lib") .empty)) :=
    Continues.refl.quiet rfl |>.quiet rfl
  have hadded : ((start.next (.add (bareProject "/app") .empty)).next
      (.add (bareProject "/lib") .empty)).graph.addDependency ⟨"/app"⟩ ⟨"/lib"⟩ =
        .ok appOnLibGraph :=
    addDependency_eq_ok_iff.2 ⟨0, 1, by decide, by decide, rfl,
      not_reflTransGen_needs rfl (by decide), rfl⟩
  exact ⟨hh, hcycle, ((refused_iff_cycle hh).2.2.1 _ _ _ hcycle).2,
    (refused_iff_cycle hregistered).2.2.2 _ _ _ hadded _ .refl⟩

end BuildEngine
