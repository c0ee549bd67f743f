import BuildEngine.Proofs.Graph.Resemblance

/-!
# Reports that come too late

A report about a project that has finished comes too late. Such a report of a success changes
nothing that can be noticed, and neither does a report of a failure of a project that is lost: what
waited for it has been skipped with it (`Cleared`). But a report of a failure of a project that has
succeeded still skips what waits behind that project, although the project itself stays as it is.
So nothing is noticed of it exactly when nothing waits directly for that project
(`late_reports`, and `late_failure_noticed` for a graph in which something does).
-/

namespace BuildEngine

namespace ProjectGraph

open Relation

variable {g g' : ProjectGraph} {i j k : Nat} {s : ProjectStatus} {op : Operation} {answer : Answer}
  {file : Path}

/-! ## Nothing waits for what is lost -/

/-- Nothing waits that directly depends on a lost project. -/
def Cleared (g : ProjectGraph) : Prop :=
  ∀ i j, g.Needs i j → g.Lost j → g.statusAt i ≠ some .todo

/-- Nothing waits in an empty graph. -/
theorem cleared_empty : Cleared .empty := by
  intro i j hij
  simp [Needs, dependenciesAt, ProjectGraph.empty] at hij

/-- A new project depends on nothing that is lost. -/
theorem Cleared.register (h : g.Cleared) (hg : g.WellShaped) (project : Project)
    (environment : Environment) : (g.register project environment).Cleared := by
  intro i j hij hj
  rw [needs_register] at hij
  rw [Lost, statusAt_register, if_neg (hg.lt_length_of_needs hij).ne] at hj
  rw [statusAt_register, if_neg hij.lt_length.ne]
  exact h i j hij hj

/-- A new edge leaves a graph cleared if its end is not lost. -/
theorem Cleared.link (h : g.Cleared) (hi : i < g.nodes.length) (hj : ¬ g.Lost j) (waits : Bool) :
    (g.link i j waits).Cleared := by
  intro a b hab hb
  rw [lost_congr (statusAt_link ..)] at hb
  rw [statusAt_link]
  rcases (needs_link_iff hi j waits a b).1 hab with hab | ⟨-, rfl⟩
  · exact h a b hab hb
  · exact absurd hb hj

/-- Handing a project out makes nothing wait. -/
theorem Cleared.handOut (h : g.Cleared) (hi : i < g.nodes.length) : (g.handOut i).Cleared := by
  intro a b hab hb ha
  rw [needs_eq_of_shape (shape_handOut g i)] at hab
  rw [statusAt_handOut hi] at ha
  rw [Lost, statusAt_handOut hi] at hb
  split at ha
  · cases ha
  · split at hb
    · rcases hb with hb | hb <;> cases hb
    · exact h a b hab hb ha

/-- What waits or is lost after a success, waited or was lost before. -/
theorem Cleared.succeed (h : g.Cleared) (i : Nat) : (g.succeed i).Cleared := by
  intro a b hab hb ha
  rw [needs_eq_of_shape (shape_succeed g i)] at hab
  refine h a b hab ?_ (keepsWaiting_succeed g i a ha).1
  rw [lost_congr (statusAt_succeed g i b)] at hb
  by_cases hbi : b = i
  · subst hbi
    by_cases hunf : g.Unfinished b
    · rw [Lost, statusAt_finish_self hunf] at hb
      rcases hb with hb | hb <;> cases hb
    · rwa [finish_of_not_unfinished hunf] at hb
  · exact (lost_congr (statusAt_finish_of_ne hbi _)).1 hb

/-- Giving up a project clears the graph behind it. All edges but those of the project itself have
to be cleared already. -/
theorem WellShaped.cleared_giveUp (hg : g.WellShaped) (hs : s.isFinished = true)
    (h : ∀ a b, a ≠ i → g.Needs a b → g.Lost b → g.statusAt a ≠ some .todo) :
    (g.giveUp i s).Cleared := by
  intro a b hab hb ha
  rw [needs_eq_of_shape (shape_giveUp g i s)] at hab
  obtain ⟨hai, htodo, hcut⟩ := todo_of_giveUp hs ha
  have hbi : b ≠ i := fun hbi => hcut (hg.cutOff_of_needs hai htodo hab (.inl hbi))
  have hbcut : ¬ (g.finish i s).CutOff [i] b := fun hb =>
    hcut (hg.cutOff_of_needs hai htodo hab (.inr hb))
  exact h a b hai hab ((lost_congr (statusAt_giveUp_of_not_cutOff hbi hbcut)).1 hb) htodo

/-- A project that comes to depend on a lost one is skipped at once. -/
theorem Cleared.connect (h : g.Cleared) (hg : g.Consistent) (hi : i < g.nodes.length)
    (hj : j < g.nodes.length) (hacyclic : ¬ ReflTransGen g.Needs j i) :
    (g.connect i j).Cleared := by
  by_cases hij : g.Needs i j
  · rwa [connect_of_needs hij]
  rcases unfinished_or_succeeded_or_lost hj with hunf | hsucc | hlost
  · rw [connect_of_unfinished hij hunf]
    exact h.link hi hunf.not_lost true
  · rw [connect_of_succeeded hij hsucc]
    exact h.link hi (fun hlost => hlost.ne_succeeded hsucc) false
  · rw [connect_of_lost hij hlost]
    refine (hg.toWellShaped.link hi hj hacyclic false).cleared_giveUp rfl fun a b hai hab hb => ?_
    -- The new edge is the only one that may not be cleared, and it begins at the project given up.
    rw [lost_congr (statusAt_link ..)] at hb
    rw [statusAt_link]
    rcases (needs_link_iff hi j false a b).1 hab with hab | ⟨ha, -⟩
    · exact h a b hab hb
    · exact absurd ha hai

/-- Every operation leaves a graph cleared. -/
theorem Cleared.performs (h : g.Cleared) (hg : g.Consistent) (hop : g.Performs op answer g') :
    g'.Cleared := by
  cases hop with
  | refused => exact h
  | add hnew => exact h.register hg.toWellShaped _ _
  | addDependency hi hj htodo hacyclic =>
    exact h.connect hg (lt_length_of_index? hi) (lt_length_of_index? hj) hacyclic
  | nothing _ => exact h
  | takeNext hn hready hfirst => exact h.handOut (lt_length_of_statusAt hready.1)
  | markSucceeded hi => exact h.succeed _
  | markFailed hi => exact hg.toWellShaped.cleared_giveUp rfl fun a b _ hab hb => h a b hab hb

/-! ## Changes that come too late -/

/-- A success that comes too late leaves a graph like the one before. -/
theorem resembles_succeed (hi : ¬ g.Unfinished i) : g.Resembles (g.succeed i) :=
  (keepsWaiting_succeed g i).resembles (shape_succeed g i) fun k => by
    rw [statusAt_succeed, finish_of_not_unfinished hi]

/-- A failure that comes too late leaves a graph like the one before if nothing waits directly for
the project. -/
theorem resembles_giveUp (hi : ¬ g.Unfinished i) (hs : s.isFinished = true)
    (h : ∀ k ∈ g.dependentsAt i, g.statusAt k ≠ some .todo) : g.Resembles (g.giveUp i s) := by
  refine (keepsWaiting_giveUp g i hs).resembles (shape_giveUp g i s) fun k => ?_
  have hcut : ¬ g.CutOff [i] k := by
    rintro ⟨a, ha, hak⟩
    obtain ⟨b, hab, -⟩ := TransGen.head'_iff.1 hak
    rw [List.mem_singleton.1 ha] at hab
    exact h b hab.1 hab.2
  rw [statusAt_giveUp, finish_of_not_unfinished hi, if_neg hcut]

/-- A failure that comes too late skips what waits directly for the project. -/
theorem statusAt_giveUp_of_dependent (hi : ¬ g.Unfinished i) (hk : k ∈ g.dependentsAt i)
    (htodo : g.statusAt k = some .todo) : (g.giveUp i s).statusAt k = some .skipped := by
  rw [statusAt_giveUp, finish_of_not_unfinished hi]
  exact if_pos ⟨i, List.mem_singleton_self i, .single ⟨hk, htodo⟩⟩

/-- Graphs of one shape that cannot be told apart have the same statuses. -/
theorem Indistinguishable.statusAt_eq (h : g.Indistinguishable g') (hg : g.WellShaped)
    (hshape : g'.shape = g.shape) (hk : k < g.nodes.length) : g'.statusAt k = g.statusAt k := by
  have hget := List.getElem?_eq_getElem hk
  generalize g.nodes[k] = n at hget
  have hindex : g.index? n.project.file = some k :=
    (hg.index?_eq_some_iff _).2 ⟨n.project, projectAt?_of_getElem? hget, Path.same_self _⟩
  have hstatus : g'.status? n.project.file = g.status? n.project.file :=
    congrFun (congrArg View.status (h []).2) n.project.file
  rwa [status?, status?, index?_eq_of_shape hshape, hindex, Option.bind_some, Option.bind_some]
    at hstatus

end ProjectGraph

open ProjectGraph History

variable {h : History} {file : Path} {s : ProjectStatus}

/-- Whatever has been asked and reported, nothing waits directly for a lost project. -/
theorem History.Continues.cleared (hh : Continues anyReport start h) : h.graph.Cleared :=
  hh.graph_invariant (P := Cleared) (fun _ _ _ _ hg hcleared hop => hcleared.performs hg hop)
    consistent_empty cleared_empty

/-- Whatever has been asked and reported: a report about a project that has finished is accepted. If
it is one of a success, nothing tells the graph after it from the one before. If it is one of a
failure, nothing does exactly if the project is lost or nothing waits directly for it; what waits
directly for a project that has succeeded is skipped by such a report. -/
theorem late_reports (hh : Continues anyReport start h) (hfile : h.graph.status? file = some s)
    (hs : s.isFinished = true) :
    (∃ g, h.graph.markSucceeded file = .ok g ∧ h.graph.Indistinguishable g) ∧
      ∃ i g, h.graph.index? file = some i ∧ h.graph.markFailed file = .ok g ∧
        (h.graph.Indistinguishable g ↔
          s ≠ .succeeded ∨ ∀ k, h.graph.Needs k i → h.graph.statusAt k ≠ some .todo) ∧
        ∀ k, h.graph.Needs k i → h.graph.statusAt k = some .todo →
          g.statusAt k = some .skipped := by
  obtain ⟨i, hi, hstatus⟩ := Option.bind_eq_some_iff.1 hfile
  have hconsistent := hh.consistent
  have hlt := lt_length_of_index? hi
  have hfinal := not_unfinished_of_isFinished hstatus hs
  have hdependent (k : Nat) : k ∈ h.graph.dependentsAt i ↔ h.graph.Needs k i :=
    hconsistent.mirrored i k
  have hskipped (k : Nat) (hk : h.graph.Needs k i) (htodo : h.graph.statusAt k = some .todo) :
      (h.graph.giveUp i .failed).statusAt k = some .skipped :=
    statusAt_giveUp_of_dependent hfinal ((hdependent k).2 hk) htodo
  refine ⟨⟨_, markSucceeded_eq_ok_iff.2 ⟨i, hi, rfl⟩,
      (resembles_succeed hfinal).indistinguishable hconsistent (hconsistent.succeed hlt)⟩,
    i, _, hi, markFailed_eq_ok_iff.2 ⟨i, hi, rfl⟩, ⟨fun hsame => ?_, fun hnone => ?_⟩, hskipped⟩
  · refine .inr fun k hk htodo => ?_
    have hkept := hsame.statusAt_eq hconsistent.toWellShaped (shape_giveUp ..) hk.lt_length
    rw [hskipped k hk htodo, htodo] at hkept
    cases hkept
  · have hwaiting : ∀ k, h.graph.Needs k i → h.graph.statusAt k ≠ some .todo := by
      refine hnone.elim (fun hne k hk => hh.cleared k i hk ?_) id
      -- A final status other than success is that of a lost project.
      rcases unfinished_or_succeeded_or_lost hlt with hunf | hsucc | hlost
      · exact absurd hunf hfinal
      · rw [hstatus, Option.some.injEq] at hsucc
        exact absurd hsucc hne
      · exact hlost
    have hresembles := resembles_giveUp hfinal (s := .failed) rfl fun k hk =>
      hwaiting k ((hdependent k).1 hk)
    exact hresembles.indistinguishable hconsistent (hconsistent.giveUp hlt rfl)

/-- Of two projects the second one, which the first one waited for, is handed out and built. -/
def appAfterLib : History :=
  (appOnLib.next .takeNext).next (.markSucceeded ⟨"/lib"⟩)

/-- The graph of two projects of which the second one has succeeded and the first one is next. -/
def appAfterLibGraph : ProjectGraph where
  nodes :=
    [⟨bareProject "/app", some .empty, .todo, [], [1], []⟩,
      ⟨bareProject "/lib", none, .succeeded, [], [], [0]⟩]
  finishedCount := 1
  finished := false

/-- The same graph after a report that the second project has failed. -/
def appOnLateFailureGraph : ProjectGraph where
  nodes :=
    [⟨bareProject "/app", none, .skipped, [], [1], []⟩,
      ⟨bareProject "/lib", none, .succeeded, [], [], [0]⟩]
  finishedCount := 2
  finished := true

/-- After the operations the graph is this one. -/
theorem graph_appAfterLib : appAfterLib.graph = appAfterLibGraph := by
  rw [appAfterLib, appOnLib_eq]
  rfl

/-- The only report is allowed, as any is. -/
theorem continues_appAfterLib : Continues anyReport start appAfterLib :=
  ((continues_appOnLib anyReport).quiet rfl).next _ fun _ _ => trivial

/-- After the library has succeeded, another report of its success is not noticed, but a report of
its failure skips the app. -/
theorem late_reports_app_after_lib :
    Continues anyReport start appAfterLib ∧
      appAfterLib.graph.status? ⟨"/lib"⟩ = some .succeeded ∧
      (∃ g, appAfterLib.graph.markSucceeded ⟨"/lib"⟩ = .ok g ∧
        appAfterLib.graph.Indistinguishable g) ∧
      ∃ g, appAfterLib.graph.markFailed ⟨"/lib"⟩ = .ok g ∧
        ¬ appAfterLib.graph.Indistinguishable g ∧ g.statusAt 0 = some .skipped := by
  have hfile : appAfterLib.graph.status? ⟨"/lib"⟩ = some .succeeded := by
    rw [graph_appAfterLib]
    decide
  have hneeds : appAfterLib.graph.Needs 0 1 := by
    rw [graph_appAfterLib]
    exact List.mem_singleton_self 1
  have htodo : appAfterLib.graph.statusAt 0 = some .todo := by
    rw [graph_appAfterLib]
    rfl
  have hindex : appAfterLib.graph.index? ⟨"/lib"⟩ = some 1 := by
    rw [graph_appAfterLib]
    decide
  obtain ⟨hsucceeded, i, g, hi, hg, hnoticed, hskipped⟩ :=
    late_reports continues_appAfterLib hfile rfl
  cases hindex.symm.trans hi
  refine ⟨continues_appAfterLib, hfile, hsucceeded, g, hg, fun hsame => ?_, hskipped 0 hneeds htodo⟩
  -- The failure is noticed: `app` needs `lib` and still waited.
  rcases hnoticed.1 hsame with hne | hnone
  · exact hne rfl
  · exact hnone 0 hneeds htodo

/-- A report about a project that has finished does not always go unnoticed. -/
theorem late_failure_noticed :
    ¬ ∀ h, Continues anyReport start h → ∀ file s, h.graph.status? file = some s →
      s.isFinished = true →
        (∃ g, h.graph.markSucceeded file = .ok g ∧ h.graph.Indistinguishable g) ∧
          ∃ g, h.graph.markFailed file = .ok g ∧ h.graph.Indistinguishable g := by
  intro hall
  obtain ⟨-, g, hg, hsame⟩ := hall appAfterLib continues_appAfterLib ⟨"/lib"⟩ .succeeded
    (by rw [graph_appAfterLib]; decide) rfl
  -- If nobody could tell, `app` would wait as before, but it is skipped.
  have hstatus : g.status? ⟨"/app"⟩ = appAfterLib.graph.status? ⟨"/app"⟩ :=
    congrFun (congrArg View.status (hsame []).2) ⟨"/app"⟩
  rw [graph_appAfterLib] at hg hstatus
  have hgraph : appAfterLibGraph.markFailed ⟨"/lib"⟩ = .ok appOnLateFailureGraph :=
    markFailed_eq_ok_iff.2 ⟨1, by decide, by decide +kernel⟩
  cases hgraph.symm.trans hg
  revert hstatus
  decide

end BuildEngine
