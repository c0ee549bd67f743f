import BuildEngine.Proofs.Graph.History

/-!
# A graph never gets stuck

While projects are unfinished, one of them is being built or one can be handed out. A waiting
project that cannot be handed out waits for an unfinished dependency (`WaitsRightly`); if nothing
is being built, that one waits as well, and as edges close no cycle, following them ends at a
project that waits for nothing. So a worker leaves only when all is finished, and is made to wait
only while something is being built. This holds whatever has been reported.
-/

namespace BuildEngine

open ProjectGraph

namespace ProjectGraph

variable {g : ProjectGraph} {i : Nat} {s : ProjectStatus}

/-- If nothing is being built, what is unfinished is ready or waits for something that is. -/
theorem Consistent.exists_ready (h : g.Consistent) (hidle : ∀ i, g.statusAt i ≠ some .inFlight)
    (hi : g.Unfinished i) : ∃ k, g.Ready k := by
  induction i using h.acyclic.induction with
  | hstep i ih =>
    have htodo : g.statusAt i = some .todo := hi.resolve_right (hidle i)
    cases hout : g.outstandingAt i with
    | nil => exact ⟨i, htodo, hout⟩
    | cons j rest =>
      -- The induction goes on with a project that this one waits for, so it cannot go on forever.
      have hj : j ∈ g.outstandingAt i := by simp [hout]
      obtain ⟨hneeds, hunf⟩ := (h.waitsRightly i htodo j).1 hj
      exact ih j (.single hneeds) hunf

/-- If nothing is being built and something is unfinished, a project is handed out. -/
theorem Consistent.exists_takeNext (h : g.Consistent)
    (hidle : ∀ i, g.statusAt i ≠ some .inFlight) (hi : g.Unfinished i) :
    ∃ request g', g.takeNext = some (request, g') := by
  obtain ⟨k, hready⟩ := h.exists_ready hidle hi
  cases htake : g.takeNext with
  | none => exact absurd hready (takeNext_eq_none_iff.1 htake k)
  | some result => exact ⟨result.1, result.2, rfl⟩

/-- A node with a status has a number. -/
theorem exists_mem_status_iff : (∃ n ∈ g.nodes, n.status = s) ↔ ∃ i, g.statusAt i = some s := by
  constructor
  · rintro ⟨n, hn, rfl⟩
    obtain ⟨i, hi⟩ := List.mem_iff_getElem?.1 hn
    exact ⟨i, statusAt_of_getElem? hi⟩
  · rintro ⟨i, hi⟩
    obtain ⟨n, hn, hstatus⟩ := exists_getElem?_of_statusAt hi
    exact ⟨n, List.mem_of_getElem? hn, hstatus⟩

/-- All nodes have a final status exactly when no number is that of an unfinished project. -/
theorem all_isFinished_iff : (∀ n ∈ g.nodes, n.status.isFinished = true) ↔
    ∀ i, ¬ g.Unfinished i := by
  constructor
  · intro hall i hi
    have hget := List.getElem?_eq_getElem hi.lt_length
    rw [unfinished_iff_of_getElem? hget, hall _ (List.getElem_mem _)] at hi
    cases hi
  · intro hall n hn
    obtain ⟨i, hi⟩ := List.mem_iff_getElem?.1 hn
    have hfin := hall i
    rwa [unfinished_iff_of_getElem? hi, Bool.not_eq_false] at hfin

/-- A worker leaves exactly when all projects have finished. -/
theorem Consistent.poll_eq_leave_iff (h : g.Consistent) :
    (g.poll false).1 = .leave ↔ ∀ i, ¬ g.Unfinished i := by
  -- The flag and the counter say the same: no project is unfinished.
  have hdone : (g.finished || decide (g.finishedCount = g.nodes.length)) = true ↔
      ∀ i, ¬ g.Unfinished i := by
    rw [← h.eq_length_iff, Bool.or_eq_true, decide_eq_true_eq]
    exact ⟨fun hd => hd.elim (fun hf => (h.noticed hf).2) id, .inr⟩
  unfold poll
  cases htake : g.takeNext with
  | some result =>
    obtain ⟨i, n, -, hready, -⟩ := takeNext_eq_some_iff.1 htake
    simp only [Bool.false_eq_true, if_false, reduceCtorEq, false_iff]
    exact fun hall => hall i (.inl hready.1)
  | none =>
    rw [← hdone]
    cases hd : g.finished || decide (g.finishedCount = g.nodes.length) <;> simp_all

/-- Nobody has to wait while nothing is being built. -/
theorem Consistent.poll_ne_wait (h : g.Consistent) (hidle : ∀ i, g.statusAt i ≠ some .inFlight) :
    (g.poll false).1 ≠ .wait := by
  intro hwait
  by_cases hall : ∀ i, ¬ g.Unfinished i
  · rw [h.poll_eq_leave_iff.2 hall] at hwait
    cases hwait
  · push Not at hall
    obtain ⟨i, hi⟩ := hall
    obtain ⟨request, g', htake⟩ := h.exists_takeNext hidle hi
    simp [poll, htake] at hwait

end ProjectGraph

open History

/-- Whatever has been asked and reported, in whatever order: if a project is unfinished and none is
being built, then one is handed out. A worker that asks while the build goes on leaves exactly when
all projects have finished, and has to ask again only while a project is being built. -/
theorem never_stuck {h : History} (hh : Continues anyReport start h) :
    ((∃ n ∈ h.graph.nodes, n.status.isFinished = false) →
        (∀ n ∈ h.graph.nodes, n.status ≠ .inFlight) →
          ∃ request g, h.graph.takeNext = some (request, g)) ∧
      ((h.graph.poll false).1 = .leave ↔ ∀ n ∈ h.graph.nodes, n.status.isFinished = true) ∧
      ((h.graph.poll false).1 = .wait → ∃ n ∈ h.graph.nodes, n.status = .inFlight) := by
  have hc := hh.consistent
  refine ⟨fun ⟨n, hn, hfin⟩ hidle => ?_, hc.poll_eq_leave_iff.trans all_isFinished_iff.symm,
    fun hwait => ?_⟩
  · obtain ⟨i, hi⟩ := List.mem_iff_getElem?.1 hn
    refine hc.exists_takeNext (fun k hk => ?_) ((unfinished_iff_of_getElem? hi).2 hfin)
    obtain ⟨m, hm, hstatus⟩ := exists_mem_status_iff.2 ⟨k, hk⟩
    exact hidle m hm hstatus
  -- With nothing in flight the poll finds a project, or all are finished.
  · by_contra hidle
    rw [exists_mem_status_iff, not_exists] at hidle
    exact hc.poll_ne_wait hidle hwait

/-- After a report about a project that was never handed out, the one it waited for is handed out
all the same. -/
theorem never_stuck_after_stray_report :
    ∃ h, h = appOnLib.next (.markSucceeded ⟨"/app"⟩) ∧ Continues anyReport start h ∧
      (∃ n ∈ h.graph.nodes, n.status.isFinished = false) ∧
      (∀ n ∈ h.graph.nodes, n.status ≠ .inFlight) ∧
      (∃ request g, h.graph.takeNext = some (request, g)) ∧
      (h.graph.poll false).1 ≠ .leave := by
  refine ⟨_, rfl, ?_⟩
  have hh : Continues anyReport start (appOnLib.next (.markSucceeded ⟨"/app"⟩)) :=
    (continues_appOnLib anyReport).next _ fun _ _ => trivial
  have hunf : ∃ n ∈ (appOnLib.next (.markSucceeded ⟨"/app"⟩)).graph.nodes,
      n.status.isFinished = false := by
    rw [appOnLib_eq]
    decide
  have hidle : ∀ n ∈ (appOnLib.next (.markSucceeded ⟨"/app"⟩)).graph.nodes,
      n.status ≠ .inFlight := by
    rw [appOnLib_eq]
    decide
  refine ⟨hh, hunf, hidle, (never_stuck hh).1 hunf hidle, fun hleave => ?_⟩
  obtain ⟨n, hn, hfin⟩ := hunf
  rw [(never_stuck hh).2.1.1 hleave n hn] at hfin
  cases hfin

end BuildEngine
