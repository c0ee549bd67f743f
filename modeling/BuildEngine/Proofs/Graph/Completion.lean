import BuildEngine.Proofs.Graph.HandingOut
import BuildEngine.Proofs.Graph.Progress

/-!
# Completion

What has finished stays as it is. Whatever is asked of a graph and whatever is reported, a final
status is never given up for another one (`Performs.status?_of_isFinished`). Together with the
accounting of the finished projects this says how far the whole graph has come
(`completion_accounted`): the number of finished projects is right, and the graph is finished
exactly when there are projects and all of them have finished.
-/

namespace BuildEngine

namespace ProjectGraph

variable {g g' : ProjectGraph} {i j k : Nat} {s : ProjectStatus} {op : Operation} {answer : Answer}
  {file : Path}

/-- A project with a final status is not unfinished. -/
theorem not_unfinished_of_isFinished (hk : g.statusAt k = some s) (hs : s.isFinished = true) :
    ¬ g.Unfinished k := by
  rw [Unfinished, hk]
  rintro (h | h) <;> cases h <;> cases hs

/-! ## The parts of an operation -/

/-- Finishing a project leaves the status of every finished one. -/
theorem statusAt_finish_of_not_unfinished (hk : ¬ g.Unfinished k) (i : Nat) (s : ProjectStatus) :
    (g.finish i s).statusAt k = g.statusAt k := by
  by_cases hki : k = i
  · rw [finish_of_not_unfinished (hki ▸ hk)]
  · exact statusAt_finish_of_ne hki s

/-- Giving a project up leaves the status of every finished one. -/
theorem statusAt_giveUp_of_not_unfinished (hk : ¬ g.Unfinished k) (i : Nat) (s : ProjectStatus) :
    (g.giveUp i s).statusAt k = g.statusAt k := by
  have hfinish := statusAt_finish_of_not_unfinished hk i s
  -- Only what waits is skipped with a project that is given up.
  have hcut : ¬ (g.finish i s).CutOff [i] k := fun hcut =>
    hk (.inl (hfinish.symm.trans hcut.statusAt))
  rw [statusAt_giveUp, if_neg hcut, hfinish]

/-- A new dependency leaves the status of every finished project. -/
theorem statusAt_connect_of_not_unfinished (hk : ¬ g.Unfinished k) (i : Nat)
    (hj : j < g.nodes.length) : (g.connect i j).statusAt k = g.statusAt k := by
  have hlink (waits : Bool) : (g.link i j waits).statusAt k = g.statusAt k := statusAt_link ..
  rcases connect_cases g i hj with heq | ⟨waits, heq⟩ | heq <;> rw [heq]
  · exact hlink waits
  · rw [statusAt_giveUp_of_not_unfinished (mt (unfinished_congr (hlink false)).1 hk), hlink]

/-! ## Operations -/

/-- No operation changes a final status. -/
theorem Performs.statusAt_of_isFinished (hop : g.Performs op answer g')
    (hk : g.statusAt k = some s) (hs : s.isFinished = true) : g'.statusAt k = some s := by
  have hfinal : ¬ g.Unfinished k := not_unfinished_of_isFinished hk hs
  -- One case for each operation; none changes a node that is finished.
  cases hop with
  | refused => exact hk
  | add hnew => rw [statusAt_register, if_neg (lt_length_of_statusAt hk).ne, hk]
  | addDependency hi hj htodo hacyclic =>
    rw [statusAt_connect_of_not_unfinished hfinal _ (lt_length_of_index? hj), hk]
  | nothing _ => exact hk
  | @takeNext i n hn hready hfirst =>
    have hki : k ≠ i := by
      rintro rfl
      exact hfinal (.inl hready.1)
    rw [statusAt_handOut_of_ne (lt_length_of_statusAt hready.1) hki, hk]
  | markSucceeded hi => rw [statusAt_succeed, statusAt_finish_of_not_unfinished hfinal, hk]
  | markFailed hi => rw [statusAt_giveUp_of_not_unfinished hfinal, hk]

/-- A project that has finished is found with its status after every operation. -/
theorem Performs.status?_of_isFinished (hop : g.Performs op answer g') (hg : g.Consistent)
    (hfile : g.status? file = some s) (hs : s.isFinished = true) : g'.status? file = some s := by
  obtain ⟨k, hk, hstatus⟩ := Option.bind_eq_some_iff.1 hfile
  rw [status?, hop.index?_eq hg hk, Option.bind_some]
  exact hop.statusAt_of_isFinished hstatus hs

/-- The flag says that there are projects and that all of them have finished. -/
theorem Accounted.finished_iff (h : g.Accounted) :
    g.finished = true ↔ g.nodes ≠ [] ∧ ∀ n ∈ g.nodes, n.status.isFinished = true := by
  rw [all_isFinished_iff, ← h.eq_length_iff]
  exact ⟨h.noticed, fun hall => h.unnoticed hall.1 hall.2⟩

end ProjectGraph

open ProjectGraph History

variable {h h' : History} {file : Path} {s : ProjectStatus}

/-- A project that has finished keeps its status as the history goes on. -/
theorem History.Continues.status?_of_isFinished (hh : Continues anyReport start h)
    (hh' : Continues anyReport h h') (hfile : h.graph.status? file = some s)
    (hs : s.isFinished = true) : h'.graph.status? file = some s :=
  hh'.graph_invariant (P := fun g => g.status? file = some s)
    (fun _ _ _ _ hg hstatus hop => hop.status?_of_isFinished hg hstatus hs) hh.consistent hfile

/-- Whatever has been asked and reported, the number of finished projects counts the projects with a
final status, the graph is finished exactly when it has projects and all of them have a final
status, and a final status stays whatever is asked and reported later. -/
theorem completion_accounted (hh : Continues anyReport start h) :
    h.graph.finishedCount = h.graph.nodes.countP (fun n => n.status.isFinished) ∧
      (h.graph.finished = true ↔
        h.graph.nodes ≠ [] ∧ ∀ n ∈ h.graph.nodes, n.status.isFinished = true) ∧
      ∀ h', Continues anyReport h h' → ∀ file s, h.graph.status? file = some s →
        s.isFinished = true → h'.graph.status? file = some s := by
  refine ⟨?_, hh.consistent.finished_iff, fun h' hh' file s hfile hs => ?_⟩
  · rw [hh.consistent.count, statuses, List.countP_map]
    rfl
  · exact hh.status?_of_isFinished hh' hfile hs

/-- The graph of two projects after the second one, which the first one waited for, has failed. -/
def appOnFailedLibGraph : ProjectGraph where
  nodes :=
    [⟨bareProject "/app", none, .skipped, [1], [1], []⟩,
      ⟨bareProject "/lib", none, .failed, [], [], [0]⟩]
  finishedCount := 2
  finished := true

/-- After the failure of the library the app is skipped. -/
theorem markFailed_appOnLib :
    appOnLib.graph.markFailed ⟨"/lib"⟩ = .ok appOnFailedLibGraph := by
  rw [appOnLib_eq]
  exact markFailed_eq_ok_iff.2 ⟨1, by decide, by decide +kernel⟩

/-- After a failure that nobody was asked for, two projects have finished; a second report, of a
success, is too late for both. -/
theorem completion_accounted_second_report :
    ∃ h h', h = appOnLib.next (.markFailed ⟨"/lib"⟩) ∧ h' = h.next (.markSucceeded ⟨"/lib"⟩) ∧
      Continues anyReport start h ∧ Continues anyReport h h' ∧
        h.graph.finishedCount = 2 ∧ h.graph.finished = true ∧
          h'.graph.status? ⟨"/lib"⟩ = some .failed ∧ h'.graph.status? ⟨"/app"⟩ = some .skipped := by
  refine ⟨_, _, rfl, rfl, ?_⟩
  have hh : Continues anyReport start (appOnLib.next (.markFailed ⟨"/lib"⟩)) :=
    (continues_appOnLib anyReport).next _ fun _ _ => trivial
  have hh' : Continues anyReport (appOnLib.next (.markFailed ⟨"/lib"⟩))
      ((appOnLib.next (.markFailed ⟨"/lib"⟩)).next (.markSucceeded ⟨"/lib"⟩)) :=
    Continues.refl.next _ fun _ _ => trivial
  have hgraph : (appOnLib.next (.markFailed ⟨"/lib"⟩)).graph = appOnFailedLibGraph := by
    simp only [next, perform, markFailed_appOnLib, settle]
  obtain ⟨hcount, hfinished, hstays⟩ := completion_accounted hh
  -- The second report comes on a finished project and is ignored.
  refine ⟨hh, hh', ?_, ?_, hstays _ hh' _ _ ?_ rfl, hstays _ hh' _ _ ?_ rfl⟩
  · rw [hcount, hgraph]
    rfl
  · rw [hfinished, hgraph]
    decide
  · rw [hgraph]
    decide
  · rw [hgraph]
    decide

end BuildEngine
