import BuildEngine.Proofs.Graph.Workers

/-!
# How a build ends

When all workers have left, all projects are finished, and then a project is skipped exactly if
building something it rests on fails (`Crew.OnTrack.skipped_iff`). As this does not mention the
workers, all builds of a graph end alike, whoever took which step. A build by a single worker is
one of them, and so the pool, which goes through the projects one after the other, comes to the
summary that any number of workers come to (`Pool.summary_run`).
-/

namespace BuildEngine

open Relation ProjectGraph

namespace Crew

variable {build : Project → Ending} {g : ProjectGraph} {c c' : Crew}

/-! ## When all have left -/

/-- When everyone of at least one worker has left, all projects are finished. -/
theorem OnTrack.finished (h : c.OnTrack build g) (hsome : c.workers ≠ []) (hleft : c.Left)
    (i : Nat) : ¬ c.graph.Unfinished i := by
  obtain ⟨w, hw⟩ := List.exists_mem_of_ne_nil _ hsome
  exact h.left (hleft w hw ▸ hw) i

/-- Building the project with a number fails. -/
def Fails (build : Project → Ending) (g : ProjectGraph) (i : Nat) : Prop :=
  ∃ p, g.projectAt? i = some p ∧ (build p).isSuccess = false

section Finished

variable {i : Nat} {p : Project} (h : c.OnTrack build g)
  (hfinished : ∀ i, ¬ c.graph.Unfinished i)

include h in
/-- A crew does not change what depends on what. -/
theorem OnTrack.restsOn_eq : c.graph.RestsOn = g.RestsOn :=
  restsOn_eq_of_shape h.shape

include h hfinished in
/-- A project that is not skipped has the status that building it leads to. -/
theorem OnTrack.statusAt_of_ne_skipped (hp : g.projectAt? i = some p)
    (hi : c.graph.statusAt i ≠ some .skipped) :
    c.graph.statusAt i = some (if (build p).isSuccess then .succeeded else .failed) := by
  have hlt : i < c.graph.nodes.length := by
    rw [← h.projectAt?, ProjectGraph.projectAt?, Option.map_eq_some_iff] at hp
    obtain ⟨n, hn, -⟩ := hp
    exact (List.getElem?_eq_some_iff.1 hn).1
  obtain ⟨hsucceeded, hfailed⟩ := h.ended i p hp
  rcases unfinished_or_succeeded_or_lost hlt with hunf | hstatus | hstatus | hstatus
  · exact absurd hunf (hfinished i)
  · rw [hstatus, hsucceeded hstatus, if_pos rfl]
  · rw [hstatus, hfailed hstatus, if_neg Bool.false_ne_true]
  · exact absurd hstatus hi

include h in
/-- What is not skipped rests on nothing that failed. -/
theorem OnTrack.ne_skipped_iff : c.graph.statusAt i ≠ some .skipped ↔
    ∀ j, g.RestsOn i j → c.graph.statusAt j ≠ some .failed := by
  rw [Ne, h.sound.skipped_iff, h.restsOn_eq]
  push Not
  exact Iff.rfl

include h hfinished in
/-- In the end a project has failed if building it does, and nothing it depends on has. -/
theorem OnTrack.failed_iff (hp : g.projectAt? i = some p) :
    c.graph.statusAt i = some .failed ↔ (build p).isSuccess = false ∧
      ∀ j, g.RestsOn i j → c.graph.statusAt j ≠ some .failed := by
  rw [← h.ne_skipped_iff]
  refine ⟨fun hi => ⟨(h.ended i p hp).2 hi, by simp [hi]⟩, fun ⟨hbuild, hi⟩ => ?_⟩
  rw [h.statusAt_of_ne_skipped hfinished hp hi, hbuild, if_neg Bool.false_ne_true]

include h hfinished in
/-- In the end a project has succeeded if building it does, and nothing it depends on has failed. -/
theorem OnTrack.succeeded_iff (hp : g.projectAt? i = some p) :
    c.graph.statusAt i = some .succeeded ↔ (build p).isSuccess = true ∧
      ∀ j, g.RestsOn i j → c.graph.statusAt j ≠ some .failed := by
  rw [← h.ne_skipped_iff]
  refine ⟨fun hi => ⟨(h.ended i p hp).1 hi, by simp [hi]⟩, fun ⟨hbuild, hi⟩ => ?_⟩
  rw [h.statusAt_of_ne_skipped hfinished hp hi, hbuild, if_pos rfl]

include h hfinished in
/-- In the end exactly those projects are skipped that rest on one which cannot be built. -/
theorem OnTrack.skipped_iff (i : Nat) :
    c.graph.statusAt i = some .skipped ↔ ∃ j, g.RestsOn i j ∧ Fails build g j := by
  rw [h.sound.skipped_iff, h.restsOn_eq]
  constructor
  · rintro ⟨j, hij, hj⟩
    obtain ⟨n, hn, -⟩ := exists_getElem?_of_statusAt hj
    have hp : g.projectAt? j = some n.project :=
      (h.projectAt? j).symm.trans (projectAt?_of_getElem? hn)
    exact ⟨j, hij, _, hp, (h.ended j _ hp).2 hj⟩
  · -- A project that cannot be built has failed, or is skipped because of one that has.
    rintro ⟨j, hij, p, hp, hfails⟩
    by_cases hj : c.graph.statusAt j = some .skipped
    · rw [h.sound.skipped_iff, h.restsOn_eq] at hj
      obtain ⟨k, hjk, hk⟩ := hj
      exact ⟨k, hij.trans hjk, hk⟩
    · refine ⟨j, hij, (h.statusAt_of_ne_skipped hfinished hp hj).trans ?_⟩
      rw [hfails, if_neg Bool.false_ne_true]

include h hfinished in
/-- In the end the builder was called once for each project that is not skipped. -/
theorem OnTrack.count_builtProjects (hp : g.projectAt? i = some p) :
    c.builtProjects.count p = if c.graph.statusAt i = some .skipped then 0 else 1 := by
  split
  · next hi =>
    refine List.count_eq_zero_of_not_mem fun hmem => ?_
    exact ((h.built i p hp).1 hmem).ne_skipped hi
  · next hi =>
    refine List.count_eq_one_of_mem h.once ((h.built i p hp).2 (.inr ?_))
    rw [h.statusAt_of_ne_skipped hfinished hp hi]
    cases (build p).isSuccess <;> simp

include h hfinished in
/-- All crews that have finished a graph leave it with the same statuses. -/
theorem OnTrack.statusAt_eq (h' : c'.OnTrack build g)
    (hfinished' : ∀ i, ¬ c'.graph.Unfinished i) (i : Nat) :
    c'.graph.statusAt i = c.graph.statusAt i := by
  -- What is skipped agrees first; every other project ends as its own build says.
  by_cases hi : c.graph.statusAt i = some .skipped
  · rw [hi, h'.skipped_iff hfinished', ← h.skipped_iff hfinished, hi]
  have hi' : c'.graph.statusAt i ≠ some .skipped := by
    rwa [Ne, h'.skipped_iff hfinished', ← h.skipped_iff hfinished]
  cases hp : g.projectAt? i with
  | none =>
    have hnone (c : Crew) (h : c.OnTrack build g) : c.graph.statusAt i = none := by
      rw [← h.projectAt?, ProjectGraph.projectAt?, Option.map_eq_none_iff] at hp
      rw [statusAt, hp, Option.map_none]
    rw [hnone c h, hnone c' h']
  | some p =>
    rw [h.statusAt_of_ne_skipped hfinished hp hi, h'.statusAt_of_ne_skipped hfinished' hp hi']

end Finished

end Crew

/-! ## Summaries -/

namespace ProjectGraph

variable {g g' : ProjectGraph}

/-- The projects with a status are told by the projects and their statuses. -/
theorem withStatus_congr (hprojects : ∀ i, g'.projectAt? i = g.projectAt? i)
    (hstatus : ∀ i, g'.statusAt i = g.statusAt i) (s : ProjectStatus) :
    g'.withStatus s = g.withStatus s := by
  -- The list reads the projects and their statuses only.
  have hview (g : ProjectGraph) : g.withStatus s =
      ((g.nodes.map fun n => (n.project, n.status)).filter (·.2 = s)).map (·.1.file) := by
    rw [withStatus, List.filter_map, List.map_map]
    rfl
  have hsame : (g'.nodes.map fun n => (n.project, n.status)) =
      g.nodes.map fun n => (n.project, n.status) := by
    refine List.ext_getElem? fun i => ?_
    have hp := hprojects i
    have hs := hstatus i
    rw [List.getElem?_map, List.getElem?_map]
    unfold projectAt? at hp
    unfold statusAt at hs
    cases hn' : g'.nodes[i]? <;> cases hn : g.nodes[i]? <;> simp_all
  rw [hview, hview, hsame]

/-- If all projects have finished, each has exactly one of the final statuses. -/
theorem perm_withStatus (h : ∀ n ∈ g.nodes, n.status.isFinished = true) :
    (g.withStatus .succeeded ++ g.withStatus .failed ++ g.withStatus .skipped).Perm
      (g.nodes.map fun n => n.project.file) := by
  unfold withStatus
  generalize g.nodes = nodes at h
  -- On the projects: each finished one is in the list of its status and in no other.
  induction nodes with
  | nil => exact .nil
  | cons n nodes ih =>
    have hrest := (ih fun n hn => h n (List.mem_cons_of_mem _ hn)).cons n.project.file
    have hn := h n List.mem_cons_self
    rw [List.map_cons]
    refine List.Perm.trans ?_ hrest
    cases hstatus : n.status with
    | todo | inFlight =>
      rw [hstatus] at hn
      cases hn
    | succeeded => simp [hstatus]
    | failed => simp [hstatus]
    | skipped => simpa [hstatus] using (List.perm_middle : ((_ ++ _) ++ _ :: _).Perm _)

/-- If all projects have finished, none has another status. -/
theorem withStatus_eq_nil (h : ∀ n ∈ g.nodes, n.status.isFinished = true) {s : ProjectStatus}
    (hs : s.isFinished = false) : g.withStatus s = [] := by
  rw [withStatus, List.map_eq_nil_iff, List.filter_eq_nil_iff]
  intro n hn hstatus
  have hfinished := h n hn
  rw [of_decide_eq_true hstatus, hs] at hfinished
  cases hfinished

/-- Graphs of one shape have the same files. -/
theorem files_eq_of_shape (h : g'.shape = g.shape) :
    (g'.nodes.map fun n => n.project.file) = g.nodes.map fun n => n.project.file := by
  have hfiles := congrArg (List.map fun s => s.1.file) h
  rwa [shape, shape, List.map_map, List.map_map] at hfiles

/-- No two projects are listed with the same file. -/
theorem WellShaped.pairwise_files (h : g.WellShaped) :
    (g.nodes.map fun n => n.project.file).Pairwise fun p q => p.same q = false := by
  refine List.pairwise_map.2 (List.pairwise_iff_getElem.2 fun i j hi hj hij => ?_)
  have hproject (i : Nat) (hi : i < g.nodes.length) :
      g.projectAt? i = some g.nodes[i].project :=
    projectAt?_of_getElem? (List.getElem?_eq_getElem hi)
  rw [← Bool.not_eq_true]
  intro hsame
  exact hij.ne (h.distinct i j _ _ (hproject i hi) (hproject j hj) hsame)

end ProjectGraph

namespace Crew

variable {build : Project → Ending} {g : ProjectGraph} {c c' : Crew}

/-- All crews that have finished a graph come to the same summary. -/
theorem OnTrack.summary_eq (h : c.OnTrack build g) (hfinished : ∀ i, ¬ c.graph.Unfinished i)
    (h' : c'.OnTrack build g) (hfinished' : ∀ i, ¬ c'.graph.Unfinished i) :
    BuildSummary.ofGraph c'.graph false = BuildSummary.ofGraph c.graph false := by
  have hprojects (i : Nat) : c'.graph.projectAt? i = c.graph.projectAt? i :=
    (h'.projectAt? i).trans (h.projectAt? i).symm
  have hsame := withStatus_congr hprojects (h.statusAt_eq hfinished h' hfinished')
  simp only [BuildSummary.ofGraph, hsame]

/-- When all workers have left, everything went as it should, and all projects are finished. -/
theorem onTrack_of_left (hg : g.Consistent) (htodo : ∀ n ∈ g.nodes, n.status = .todo)
    {count : Nat} (hcount : 1 ≤ count) (hrun : Runs build (.start g count) c) (hleft : c.Left) :
    c.OnTrack build g ∧ ∀ i, ¬ c.graph.Unfinished i := by
  have hc : c.OnTrack build g := (onTrack_start hg htodo count).runs hrun
  refine ⟨hc, hc.finished (List.ne_nil_of_length_pos ?_) hleft⟩
  rw [hrun.length_workers, start, List.length_replicate]
  exact hcount

end Crew

open Crew

open History (Continues anyReport bareProject appOnLib appOnLibGraph appOnLib_eq
  continues_appOnLib)

/-- All workers who share a graph of waiting projects leave it alike, however many they are and
however their steps follow each other: a project fails if building it fails and it rests on nothing
that failed, it is skipped if it rests on something that failed, and otherwise it succeeds. The
builder was called once for each project that is not skipped. Each project is in exactly one of the
lists of the summary, and the summary is that of any other crew. -/
theorem finished_crews_agree {h : History} (hh : Continues anyReport .start h)
    (htodo : ∀ n ∈ h.graph.nodes, n.status = .todo) (build : Project → Ending) {count : Nat}
    (hcount : 1 ≤ count) {c : Crew} (hrun : Runs build (.start h.graph count) c)
    (hleft : c.Left) :
    (∀ i p, h.graph.projectAt? i = some p →
      (c.graph.statusAt i = some .failed ↔ (build p).isSuccess = false ∧
        ∀ j, h.graph.RestsOn i j → c.graph.statusAt j ≠ some .failed) ∧
      (c.graph.statusAt i = some .skipped ↔
        ∃ j, h.graph.RestsOn i j ∧ c.graph.statusAt j = some .failed) ∧
      (c.graph.statusAt i = some .succeeded ↔ (build p).isSuccess = true ∧
        ∀ j, h.graph.RestsOn i j → c.graph.statusAt j ≠ some .failed) ∧
      c.builtProjects.count p = if c.graph.statusAt i = some .skipped then 0 else 1) ∧
    (∃ summary, summary = BuildSummary.ofGraph c.graph false ∧
      (summary.succeeded ++ summary.failed ++ summary.skipped).Perm
        (h.graph.nodes.map fun n => n.project.file) ∧
      (summary.succeeded ++ summary.failed ++ summary.skipped).Pairwise
        (fun p q => p.same q = false) ∧
      summary.notStarted = [] ∧
      ∀ count' c', 1 ≤ count' → Runs build (.start h.graph count') c' → c'.Left →
        BuildSummary.ofGraph c'.graph false = summary) := by
  obtain ⟨hc, hfinished⟩ := onTrack_of_left hh.consistent htodo hcount hrun hleft
  have hall := all_isFinished_iff.2 hfinished
  have hperm := (perm_withStatus hall).trans (.of_eq (files_eq_of_shape hc.shape))
  -- The four equivalences, the partition, and the same summary of any other crew.
  refine ⟨fun i p hp => ?_, _, rfl, hperm, ?_, ?_, fun count' c' hcount' hrun' hleft' => ?_⟩
  · have hskipped := hc.sound.skipped_iff i
    rw [hc.restsOn_eq] at hskipped
    exact ⟨hc.failed_iff hfinished hp, hskipped, hc.succeeded_iff hfinished hp,
      hc.count_builtProjects hfinished hp⟩
  · exact hperm.symm.pairwise hh.consistent.pairwise_files fun {p q} hpq =>
      (Path.same_comm q p).trans hpq
  · exact List.append_eq_nil_iff.2 ⟨withStatus_eq_nil hall rfl, withStatus_eq_nil hall rfl⟩
  · obtain ⟨hc', hfinished'⟩ := onTrack_of_left hh.consistent htodo hcount' hrun' hleft'
    exact hc.summary_eq hfinished hc' hfinished'

/-- A builder that panics on one project. -/
def panicsOn (file : Path) (p : Project) : Ending :=
  if p.file = file then .panicked else .succeeded

/-- Two workers build the two projects, and the builder panics on the first one it gets: the other
project is skipped and never built. -/
theorem finished_crews_agree_panic :
    ∃ c, Runs (panicsOn ⟨"/lib"⟩) (.start appOnLib.graph 2) c ∧ c.Left ∧
      c.graph.statusAt 1 = some .failed ∧ c.graph.statusAt 0 = some .skipped ∧
      c.builtProjects.count (bareProject "/lib") = 1 ∧
      c.builtProjects.count (bareProject "/app") = 0 := by
  let request : BuildRequest := ⟨bareProject "/lib", .empty⟩
  let failed : ProjectGraph :=
    ⟨[⟨bareProject "/app", none, .skipped, [1], [1], []⟩,
      ⟨bareProject "/lib", none, .failed, [], [], [0]⟩], 2, true⟩
  -- The first worker takes `lib`, whose build panics, and `app` is skipped before both leave.
  have htake : Step (panicsOn ⟨"/lib"⟩) (.start appOnLibGraph 2)
      ⟨appOnLibGraph.handOut 1, [.building request, .idle], [request]⟩ :=
    .take (w := 0) rfl rfl
  have hpanic : (panicsOn ⟨"/lib"⟩ request.project).isSuccess = false := by decide
  have hlost : (appOnLibGraph.handOut 1).conclude 1 false = failed := by decide +kernel
  have hfailed : Pool.report (appOnLibGraph.handOut 1) request.project.file
      (panicsOn ⟨"/lib"⟩ request.project).isSuccess = failed := by
    rw [hpanic, report_eq (i := 1) (by decide), hlost]
  have hreport : Step (panicsOn ⟨"/lib"⟩)
      ⟨appOnLibGraph.handOut 1, [.building request, .idle], [request]⟩
      ⟨failed, [.idle, .idle], [request]⟩ := by
    rw [← hfailed]
    exact .report (c := ⟨_, [.building request, .idle], _⟩) (w := 0) rfl
  have hrun : Runs (panicsOn ⟨"/lib"⟩) (.start appOnLibGraph 2)
      ⟨failed, [.gone, .gone], [request]⟩ := by
    refine .head htake (.head hreport (.head (.leave (w := 1) rfl rfl) (.single ?_)))
    exact .leave (w := 0) rfl rfl
  have hleft : Left ⟨failed, [.gone, .gone], [request]⟩ := by simp [Left]
  have htodo : ∀ n ∈ appOnLib.graph.nodes, n.status = .todo := by
    rw [appOnLib_eq]
    decide
  have hgraph : appOnLib.graph = appOnLibGraph := by rw [appOnLib_eq]
  have hagree := finished_crews_agree (continues_appOnLib anyReport) htodo
    (panicsOn ⟨"/lib"⟩) (by decide : 1 ≤ 2) (hgraph ▸ hrun) hleft
  have hlib := hagree.1 1 (bareProject "/lib") (by rw [hgraph]; rfl)
  have happ := hagree.1 0 (bareProject "/app") (by rw [hgraph]; rfl)
  exact ⟨_, hgraph ▸ hrun, hleft, rfl, rfl, hlib.2.2.2, happ.2.2.2⟩

/-! ## A single worker -/

namespace ProjectGraph

variable {g g' : ProjectGraph} {i : Nat}

/-- How many projects wait to be handed out. -/
def waitingCount (g : ProjectGraph) : Nat :=
  (List.range g.nodes.length).countP g.isTodoAt

/-- If nothing new waits and something old does not wait any more, fewer projects wait. -/
theorem waitingCount_lt (hlength : g'.nodes.length = g.nodes.length)
    (hwaiting : g.KeepsWaiting g') (hi : g.statusAt i = some .todo)
    (hi' : g'.statusAt i ≠ some .todo) : g'.waitingCount < g.waitingCount := by
  rw [waitingCount, hlength]
  refine countP_lt_countP (fun k _ hk => ?_) (List.mem_range.2 (lt_length_of_statusAt hi)) ?_
    (isTodoAt_iff.2 hi)
  · exact isTodoAt_iff.2 (hwaiting k (isTodoAt_iff.1 hk)).1
  · rwa [← Bool.not_eq_true, isTodoAt_iff]

/-- A worker who finds everything finished leaves the graph as it is. -/
theorem Consistent.poll_of_finished (h : g.Consistent) (hall : ∀ i, ¬ g.Unfinished i) :
    g.poll false = (.leave, g) := by
  have hpoll : g.poll false = (.leave, (g.poll false).2) :=
    Prod.ext (h.poll_eq_leave_iff.2 hall) rfl
  rwa [eq_of_poll_leave hpoll] at hpoll

end ProjectGraph

/-- The builder is never cancelled, and whether it succeeds depends on the project alone. -/
structure Builder.Follows {σ : Type} (b : Builder σ) (build : Project → Ending) : Prop where
  isSuccess : ∀ request s, (b.build request s).1 = (build request.project).isSuccess
  isCancelled : ∀ s, b.isCancelled s = false

namespace Pool

variable {σ : Type} {b : Builder σ} {build : Project → Ending} {g₀ : ProjectGraph}

/-- A worker who is alone builds the project it takes, and then one project less waits. -/
private theorem exists_turn {g g₁ : ProjectGraph} {built : List BuildRequest}
    {request : BuildRequest} (h : OnTrack build g₀ ⟨g, [.idle], built⟩)
    (hidle : ∀ i, g.statusAt i ≠ some .inFlight) (hpoll : g.poll false = (.build request, g₁)) :
    ∃ g₂, g₂ = report g₁ request.project.file (build request.project).isSuccess ∧
      Runs build ⟨g, [.idle], built⟩ ⟨g₂, [.idle], built ++ [request]⟩ ∧
      OnTrack build g₀ ⟨g₂, [.idle], built ++ [request]⟩ ∧
      (∀ i, g₂.statusAt i ≠ some .inFlight) ∧ g₂.waitingCount < g.waitingCount := by
  have htaken : OnTrack build g₀ ⟨g₁, [.building request], built ++ [request]⟩ :=
    h.take (w := 0) hpoll
  have hreported : OnTrack build g₀
      ⟨report g₁ request.project.file (build request.project).isSuccess, [.idle],
        built ++ [request]⟩ :=
    htaken.report (w := 0) rfl
  have hrun : Runs build ⟨g, [.idle], built⟩
      ⟨report g₁ request.project.file (build request.project).isSuccess, [.idle],
        built ++ [request]⟩ :=
    .head (.take (w := 0) rfl hpoll)
      (.single (.report (c := ⟨g₁, [.building request], built ++ [request]⟩) (w := 0) rfl))
  refine ⟨_, rfl, hrun, hreported, ?_⟩
  obtain ⟨k, hindex, -, hinFlight⟩ := htaken.index?_building (w := 0) rfl
  obtain ⟨i, n, hn, hready, -, rfl, rfl⟩ := takeNext_eq_some_iff.1 (takeNext_of_poll hpoll)
  have hlt := lt_length_of_statusAt hready.1
  -- Only the project that was taken is being built, so it is the one that is reported.
  have honly (m : Nat) (hm : (g.handOut i).statusAt m = some .inFlight) : m = i := by
    by_contra hmi
    rw [statusAt_handOut_of_ne hlt hmi] at hm
    exact hidle m hm
  obtain rfl := honly k hinFlight
  generalize (build n.project).isSuccess = succeeded
  rw [report_eq hindex]
  have hself := statusAt_conclude_self hinFlight succeeded
  refine ⟨fun m hm => ?_, waitingCount_lt ?_ ?_ hready.1 ?_⟩
  · by_cases hmk : m = k
    · rw [hmk, hself] at hm
      cases succeeded <;> cases hm
    · exact hmk (honly m ((inFlight_conclude_iff hmk).1 hm))
  · exact length_eq_of_shape ((shape_conclude ..).trans (shape_handOut ..))
  · exact (keepsWaiting_handOut hlt).trans (keepsWaiting_conclude _ k succeeded)
  · rw [hself]
    cases succeeded <;> simp

/-- With turns for all projects that wait, the pool takes the steps of a single worker. -/
theorem exists_runs_turns (hb : b.Follows build) (count : Nat) {g : ProjectGraph} (s : σ)
    {built : List BuildRequest} (h : OnTrack build g₀ ⟨g, [.idle], built⟩)
    (hidle : ∀ i, g.statusAt i ≠ some .inFlight) (hcount : g.waitingCount ≤ count) :
    ∃ built', Runs build ⟨g, [.idle], built⟩ ⟨(turns b count g s).1, [.gone], built'⟩ := by
  have hleave {g : ProjectGraph} {built : List BuildRequest} (hpoll : g.poll false = (.leave, g)) :
      Runs build ⟨g, [.idle], built⟩ ⟨g, [.gone], built⟩ :=
    .single (.leave (w := 0) rfl hpoll)
  -- On the count of turns left, which bounds the projects that still wait.
  induction count generalizing g s built with
  | zero =>
    refine ⟨built, hleave (h.sound.poll_of_finished fun i hi => ?_)⟩
    have htodo := hi.resolve_right (hidle i)
    have hpos : 0 < g.waitingCount := List.countP_pos_iff.2
      ⟨i, List.mem_range.2 (lt_length_of_statusAt htodo), isTodoAt_iff.2 htodo⟩
    omega
  -- A turn builds one project, after which fewer wait; without one the crew leaves, and a crew of
  -- one never waits.
  | succ count ih =>
    rw [turns, hb.isCancelled]
    rcases hpoll : g.poll false with ⟨request | _ | _, g₁⟩
    · obtain ⟨g₂, hg₂, hrun, htrack, hidle₂, hfewer⟩ := exists_turn h hidle hpoll
      obtain ⟨built', hrest⟩ := ih (b.build request s).2 htrack hidle₂ (by omega)
      rw [← hb.isSuccess request s] at hg₂
      subst hg₂
      exact ⟨built', hrun.trans hrest⟩
    · obtain rfl := eq_of_poll_leave hpoll
      exact ⟨built, hleave hpoll⟩
    · exact absurd (congrArg Prod.fst hpoll) (h.sound.poll_ne_wait hidle)

/-- The summary of a pool is the one that any number of workers come to. -/
theorem summary_run (hb : b.Follows build) {g : ProjectGraph} (hg : g.Consistent)
    (htodo : ∀ n ∈ g.nodes, n.status = .todo) (s : σ) {count : Nat} (hcount : 1 ≤ count)
    {c : Crew} (hrun : Runs build (.start g count) c) (hleft : c.Left) :
    summary b (run b g s) = BuildSummary.ofGraph c.graph false := by
  have hidle (i : Nat) : g.statusAt i ≠ some .inFlight := by
    intro hi
    cases eq_todo_of_statusAt htodo hi
  have hwaiting : g.waitingCount ≤ g.nodes.length :=
    List.countP_le_length.trans (List.length_range ..).le
  -- The run on one thread is the run of a crew of one, which agrees with every other.
  obtain ⟨built, hpool⟩ : ∃ built, Runs build (.start g 1) ⟨(run b g s).1, [.gone], built⟩ :=
    exists_runs_turns hb g.nodes.length s (onTrack_start hg htodo 1) hidle hwaiting
  obtain ⟨hc, hfinished⟩ := onTrack_of_left hg htodo hcount hrun hleft
  obtain ⟨hc', hfinished'⟩ := onTrack_of_left hg htodo (Nat.le_refl 1) hpool (by simp [Left])
  rw [summary, hb.isCancelled]
  exact hc.summary_eq hfinished hc' hfinished'

end Pool

end BuildEngine
