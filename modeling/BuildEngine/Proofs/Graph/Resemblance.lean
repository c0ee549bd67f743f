import BuildEngine.Proofs.Graph.Completion
import BuildEngine.Proofs.Graph.Cycles

/-!
# Graphs that cannot be told apart

What can be learned about a graph is what it answers and what it shows (`View`). Two graphs are
`Indistinguishable` if the same questions, however many, get the same answers from both and leave
both with the same view.

A graph also keeps what nobody looks at any more: what a project still waited for when it was
started or finished, and the environment of a project that is not waiting. `Resembles` leaves this
out. Whatever is asked, two consistent graphs that resemble each other answer alike and go on
resembling each other (`Resembles.perform`), and so they are indistinguishable
(`Resembles.indistinguishable`).
-/

namespace BuildEngine

namespace ProjectGraph

open Relation

variable {g g' g₁ g₁' : ProjectGraph} {i j k : Nat} {s : ProjectStatus} {file file' : Path}

/-- What a graph shows. -/
structure View where
  /-- The status of a project. -/
  status : Path → Option ProjectStatus
  /-- The projects with a status. -/
  withStatus : ProjectStatus → List Path
  /-- Every project with those it depends on. -/
  edges : List (Path × List Path)
  /-- Whether all projects have finished. -/
  finished : Bool
  /-- What a worker finds when it asks for a project of a build that may be cancelled. -/
  offer : Bool → Offer

/-- What can be seen of a graph without changing it. -/
def view (g : ProjectGraph) : View where
  status := g.status?
  withStatus := g.withStatus
  edges := g.edges
  finished := g.finished
  offer cancelled := (g.poll cancelled).1

/-- The answers to some operations, asked one after the other, and the graph after them. -/
def performAll (g : ProjectGraph) : List Operation → List Answer × ProjectGraph
  | [] => ([], g)
  | op :: ops =>
    let rest := (g.perform op).2.performAll ops
    ((g.perform op).1 :: rest.1, rest.2)

/-- Nothing that can be asked tells the two graphs apart. -/
def Indistinguishable (g g' : ProjectGraph) : Prop :=
  ∀ ops, (g'.performAll ops).1 = (g.performAll ops).1 ∧
    (g'.performAll ops).2.view = (g.performAll ops).2.view

/-- The two graphs have the same projects, edges and statuses, and what waits in them waits with
the same environment. -/
structure Resembles (g g' : ProjectGraph) : Prop where
  /-- The projects and edges are the same. -/
  shape : g'.shape = g.shape
  /-- Every project has come equally far. -/
  status : ∀ k, g'.statusAt k = g.statusAt k
  /-- What waits goes out with the same environment. -/
  environment : ∀ k, g.statusAt k = some .todo → g'.environmentAt? k = g.environmentAt? k

/-! ## What the shape tells -/

/-- A new project comes last, without edges. -/
theorem shape_register (g : ProjectGraph) (project : Project) (environment : Environment) :
    (g.register project environment).shape = g.shape ++ [(project, [], [])] := by
  simp [register, shape, ProjectNode.shape]

/-- A change of nodes is a change of the shape if what it makes of the shape of a node depends on
that shape only. -/
private theorem shape_modifyAt_eq {f : ProjectNode → ProjectNode}
    {F : Project × List Nat × List Nat → Project × List Nat × List Nat}
    (h : ∀ n, (f n).shape = F n.shape) : (g.modifyAt i f).shape = g.shape.modify i F := by
  refine List.ext_getElem? fun k => ?_
  rw [shape, List.getElem?_map, List.getElem?_modify, shape, List.getElem?_map, modifyAt,
    List.getElem?_modify]
  cases g.nodes[k]? with
  | none => rfl
  | some n => by_cases hk : i = k <;> simp [hk, h]

/-- Where a link leads depends on the shape alone. -/
theorem shape_link (g : ProjectGraph) (i j : Nat) (waits : Bool) :
    (g.link i j waits).shape =
      (g.shape.modify i fun n => (n.1, n.2.1 ++ [j], n.2.2)).modify j
        fun n => (n.1, n.2.1, n.2.2 ++ [i]) := by
  have hfrom : (g.linkFrom i j waits).shape =
      g.shape.modify i fun n => (n.1, n.2.1 ++ [j], n.2.2) :=
    shape_modifyAt_eq fun _ => rfl
  rw [link_eq, linkTo, shape_modifyAt_eq (F := fun n => (n.1, n.2.1, n.2.2 ++ [i])) fun _ => rfl,
    hfrom]

/-- In graphs of one shape projects have the same numbers. -/
theorem index?_eq_of_shape (h : g'.shape = g.shape) (file : Path) :
    g'.index? file = g.index? file := by
  have key (g : ProjectGraph) :
      g.index? file = g.shape.findIdx? fun n => n.1.file.same file := by
    rw [shape, List.findIdx?_map]
    rfl
  rw [key, key, h]

/-- Graphs of one shape list the same edges. -/
theorem edges_eq_of_shape (h : g'.shape = g.shape) : g'.edges = g.edges := by
  have hfile : g'.fileAt? = g.fileAt? := by
    funext k
    have key (g : ProjectGraph) : g.fileAt? k = (g.projectAt? k).map Project.file := by
      rw [fileAt?, projectAt?, Option.map_map]
      rfl
    rw [key, key, projectAt?_eq_of_shape h]
  have key (g : ProjectGraph) :
      g.edges = g.shape.map fun n => (n.1.file, n.2.1.filterMap g.fileAt?) := by
    rw [shape, List.map_map]
    rfl
  rw [key, key, h, hfile]

/-! ## What resembles each other -/

/-- In graphs that resemble each other the same projects are unfinished. -/
theorem Resembles.unfinished_iff (h : g.Resembles g') (k : Nat) :
    g'.Unfinished k ↔ g.Unfinished k :=
  unfinished_congr (h.status k)

/-- Graphs that resemble each other have as many projects. -/
theorem Resembles.length_eq (h : g.Resembles g') : g'.nodes.length = g.nodes.length :=
  length_eq_of_shape h.shape

/-- A change that only takes projects from what waits leaves what resembles the graph, if it changes
neither its shape nor any status. -/
theorem KeepsWaiting.resembles (h : g.KeepsWaiting g') (hshape : g'.shape = g.shape)
    (hstatus : ∀ k, g'.statusAt k = g.statusAt k) : g.Resembles g' :=
  ⟨hshape, hstatus, fun k hk => (h k ((hstatus k).trans hk)).2⟩

/-- Changes that only take projects from what waits keep a resemblance if they do so with the shapes
and the statuses. -/
theorem Resembles.change (h : g.Resembles g') (hkeeps : g.KeepsWaiting g₁)
    (hkeeps' : g'.KeepsWaiting g₁') (hshape : g₁'.shape = g₁.shape)
    (hstatus : ∀ k, g₁'.statusAt k = g₁.statusAt k) : g₁.Resembles g₁' where
  shape := hshape
  status := hstatus
  environment k hk := by
    obtain ⟨htodo, henvironment⟩ := hkeeps k hk
    obtain ⟨-, henvironment'⟩ := hkeeps' k ((hstatus k).trans hk)
    rw [henvironment', henvironment, h.environment k htodo]

/-- Graphs go on resembling each other when one project is added to both. -/
theorem Resembles.register (h : g.Resembles g') (project : Project) (environment : Environment) :
    (g.register project environment).Resembles (g'.register project environment) where
  shape := by rw [shape_register, shape_register, h.shape]
  status k := by rw [statusAt_register, statusAt_register, h.length_eq, h.status]
  environment k hk := by
    rw [statusAt_register] at hk
    rw [environmentAt?_register, environmentAt?_register, h.length_eq]
    split
    · rfl
    · next hne =>
      rw [if_neg hne] at hk
      exact h.environment k hk

/-- Graphs go on resembling each other when one edge is entered in both. -/
theorem Resembles.link (h : g.Resembles g') (i j : Nat) (waits : Bool) :
    (g.link i j waits).Resembles (g'.link i j waits) where
  shape := by rw [shape_link, shape_link, h.shape]
  status k := by rw [statusAt_link, statusAt_link, h.status]
  environment k hk := by
    rw [statusAt_link] at hk
    rw [environmentAt?_link, environmentAt?_link, h.environment k hk]

/-- Graphs go on resembling each other when one project of both is handed out. -/
theorem Resembles.handOut (h : g.Resembles g') (hi : i < g.nodes.length) :
    (g.handOut i).Resembles (g'.handOut i) := by
  have hi' : i < g'.nodes.length := h.length_eq.symm ▸ hi
  refine h.change (keepsWaiting_handOut hi) (keepsWaiting_handOut hi') ?_ fun k => ?_
  · rw [shape_handOut, shape_handOut, h.shape]
  · rw [statusAt_handOut hi', statusAt_handOut hi, h.status]

/-- When one project of both finishes, all statuses stay the same. -/
theorem Resembles.statusAt_finish (h : g.Resembles g') (i : Nat) (s : ProjectStatus) (k : Nat) :
    (g'.finish i s).statusAt k = (g.finish i s).statusAt k := by
  by_cases hi : g.Unfinished i
  · have hi' : g'.Unfinished i := (h.unfinished_iff i).2 hi
    by_cases hk : k = i
    · rw [hk, statusAt_finish_self hi, statusAt_finish_self hi']
    · rw [statusAt_finish_of_ne hk, statusAt_finish_of_ne hk, h.status]
  · have hi' : ¬ g'.Unfinished i := mt (h.unfinished_iff i).1 hi
    rw [finish_of_not_unfinished hi, finish_of_not_unfinished hi', h.status]

/-- Graphs go on resembling each other when one project of both succeeds. -/
theorem Resembles.succeed (h : g.Resembles g') (i : Nat) :
    (g.succeed i).Resembles (g'.succeed i) := by
  refine h.change (keepsWaiting_succeed g i) (keepsWaiting_succeed g' i) ?_ fun k => ?_
  · rw [shape_succeed, shape_succeed, h.shape]
  · rw [statusAt_succeed, statusAt_succeed, h.statusAt_finish]

/-- How far a failure goes is told by the shape and the statuses. -/
theorem cutOff_iff_of_shape (hshape : g'.shape = g.shape)
    (hstatus : ∀ k, g'.statusAt k = g.statusAt k) (pending : List Nat) (k : Nat) :
    g'.CutOff pending k ↔ g.CutOff pending k := by
  have hpass : g'.PassesOn = g.PassesOn := by
    funext a b
    rw [PassesOn, PassesOn, dependentsAt_eq_of_shape hshape, hstatus]
  rw [CutOff, CutOff, hpass]

/-- Graphs go on resembling each other when one project of both is given up. -/
theorem Resembles.giveUp (h : g.Resembles g') (i : Nat) (hs : s.isFinished = true) :
    (g.giveUp i s).Resembles (g'.giveUp i s) := by
  refine h.change (keepsWaiting_giveUp g i hs) (keepsWaiting_giveUp g' i hs) ?_ fun k => ?_
  · rw [shape_giveUp, shape_giveUp, h.shape]
  · have hcut : (g'.finish i s).CutOff [i] k ↔ (g.finish i s).CutOff [i] k :=
      cutOff_iff_of_shape (by rw [shape_finish, shape_finish, h.shape]) (h.statusAt_finish i s)
        [i] k
    rw [statusAt_giveUp, statusAt_giveUp, h.statusAt_finish]
    by_cases hk : (g.finish i s).CutOff [i] k
    · rw [if_pos hk, if_pos (hcut.2 hk)]
    · rw [if_neg hk, if_neg (mt hcut.1 hk)]

/-- Graphs go on resembling each other when one dependency is added to both. -/
theorem Resembles.connect (h : g.Resembles g') (i : Nat) (hj : j < g.nodes.length) :
    (g.connect i j).Resembles (g'.connect i j) := by
  have hneeds : g'.Needs i j ↔ g.Needs i j := by rw [needs_eq_of_shape h.shape]
  by_cases hij : g.Needs i j
  · rwa [connect_of_needs hij, connect_of_needs (hneeds.2 hij)]
  have hij' : ¬ g'.Needs i j := mt hneeds.1 hij
  rcases unfinished_or_succeeded_or_lost hj with hunf | hsucc | hlost
  · rw [connect_of_unfinished hij hunf, connect_of_unfinished hij' ((h.unfinished_iff j).2 hunf)]
    exact h.link i j true
  · rw [connect_of_succeeded hij hsucc, connect_of_succeeded hij' ((h.status j).trans hsucc)]
    exact h.link i j false
  · rw [connect_of_lost hij hlost, connect_of_lost hij' ((lost_congr (h.status j)).2 hlost)]
    exact (h.link i j false).giveUp i rfl

/-! ## The same answers -/

/-- Two changes are refused for the same reason, or lead to graphs that resemble each other. -/
inductive Alike : Except GraphError ProjectGraph → Except GraphError ProjectGraph → Prop
  | refused (reason : GraphError) : Alike (.error reason) (.error reason)
  | done {g g' : ProjectGraph} : g.Resembles g' → Alike (.ok g) (.ok g')

/-- Adding a project is refused by both or done by both. -/
theorem Resembles.add (h : g.Resembles g') (project : Project) (environment : Environment) :
    Alike (g.add project environment) (g'.add project environment) := by
  unfold ProjectGraph.add
  rw [index?_eq_of_shape h.shape]
  split
  · exact .refused _
  · exact .done (h.register project environment)

/-- Adding a dependency is refused by both, for one reason, or done by both. -/
theorem Resembles.addDependency (h : g.Resembles g') (file file' : Path) :
    Alike (g.addDependency file file') (g'.addDependency file file') := by
  have hindex := index?_eq_of_shape h.shape
  have hneeds : g'.Needs = g.Needs := needs_eq_of_shape h.shape
  -- A refusal reads the positions, the statuses and the edges only, on which both graphs agree.
  cases hadd : g.addDependency file file' with
  | error reason =>
    have hadd' : g'.addDependency file file' = .error reason := by
      rw [addDependency_eq_error_iff] at hadd ⊢
      simpa only [hindex, h.status, hneeds] using hadd
    rw [hadd']
    exact .refused reason
  | ok g₁ =>
    obtain ⟨i, j, hi, hj, htodo, hacyclic, rfl⟩ := addDependency_eq_ok_iff.1 hadd
    have hadd' : g'.addDependency file file' = .ok (g'.connect i j) :=
      addDependency_eq_ok_iff.2 ⟨i, j, (hindex file).trans hi, (hindex file').trans hj,
        (h.status i).trans htodo, hneeds ▸ hacyclic, rfl⟩
    rw [hadd']
    exact .done (h.connect i (lt_length_of_index? hj))

/-- A report about a project that is not registered is refused, any other one changes the graphs
alike. -/
private theorem Resembles.report (h : g.Resembles g') (change : ProjectGraph → Nat → ProjectGraph)
    (hchange : ∀ i, (change g i).Resembles (change g' i)) (file : Path) :
    Alike (do let i ← g.index file; return change g i)
      (do let i ← g'.index file; return change g' i) := by
  unfold index
  rw [index?_eq_of_shape h.shape]
  cases g.index? file with
  | none => exact .refused _
  | some i => exact .done (hchange i)

/-- Reporting a success is refused by both or done by both. -/
theorem Resembles.markSucceeded (h : g.Resembles g') (file : Path) :
    Alike (g.markSucceeded file) (g'.markSucceeded file) :=
  h.report ProjectGraph.succeed h.succeed file

/-- Reporting a failure is refused by both or done by both. -/
theorem Resembles.markFailed (h : g.Resembles g') (file : Path) :
    Alike (g.markFailed file) (g'.markFailed file) :=
  h.report (·.giveUp · .failed) (fun i => h.giveUp i rfl) file

/-- Changes that are alike get one answer, and leave graphs that resemble each other. -/
theorem Resembles.settle {r r' : Except GraphError ProjectGraph} (h : g.Resembles g')
    (hr : Alike r r') : (g'.settle r').1 = (g.settle r).1 ∧
      (g.settle r).2.Resembles (g'.settle r').2 := by
  cases hr with
  | refused reason => exact ⟨rfl, h⟩
  | done hdone => exact ⟨rfl, hdone⟩

/-- What can be handed out is told by the edges and the statuses. -/
theorem WaitsRightly.ready_iff (h : g.WaitsRightly) :
    g.Ready k ↔ g.statusAt k = some .todo ∧ ∀ j, g.Needs k j → ¬ g.Unfinished j := by
  refine and_congr_right fun htodo => ?_
  rw [List.eq_nil_iff_forall_not_mem]
  refine forall_congr' fun j => ?_
  rw [h k htodo j, not_and]

/-- In graphs that resemble each other the same projects are ready. -/
theorem Resembles.ready_iff (h : g.Resembles g') (hg : g.WaitsRightly) (hg' : g'.WaitsRightly)
    (k : Nat) : g'.Ready k ↔ g.Ready k := by
  simp only [hg.ready_iff, hg'.ready_iff, h.status, needs_eq_of_shape h.shape, h.unfinished_iff]

/-- Either nothing is handed out by both graphs, or the same by both, and the graphs go on
resembling each other. -/
theorem Resembles.takeNext (h : g.Resembles g') (hg : g.WaitsRightly) (hg' : g'.WaitsRightly) :
    (g.takeNext = none ∧ g'.takeNext = none) ∨
      ∃ request g₁ g₁', g.takeNext = some (request, g₁) ∧ g'.takeNext = some (request, g₁') ∧
        g₁.Resembles g₁' := by
  -- What is ready is the same in both graphs, so the same project is found first.
  have hready := h.ready_iff hg hg'
  cases htake : g.takeNext with
  | none =>
    refine .inl ⟨rfl, takeNext_eq_none_iff.2 fun i hi => ?_⟩
    exact takeNext_eq_none_iff.1 htake i ((hready i).1 hi)
  | some result =>
    obtain ⟨request, g₁⟩ := result
    obtain ⟨i, n, hn, hi, hfirst, rfl, rfl⟩ := takeNext_eq_some_iff.1 htake
    have hlt := lt_length_of_statusAt hi.1
    obtain ⟨n', hn', -⟩ := exists_getElem?_of_statusAt ((h.status i).trans hi.1)
    have hproject : n'.project = n.project := by
      have hproject := projectAt?_eq_of_shape h.shape i
      rwa [projectAt?_of_getElem? hn', projectAt?_of_getElem? hn, Option.some.injEq] at hproject
    have henvironment : n'.environment = n.environment := by
      have henvironment := h.environment i hi.1
      rwa [environmentAt?, environmentAt?, hn', hn] at henvironment
    refine .inr ⟨_, _, g'.handOut i, rfl, takeNext_eq_some_iff.2 ⟨i, n', hn', (hready i).2 hi,
      fun k hk hk' => hfirst k hk ((hready k).1 hk'), ?_, rfl⟩, h.handOut hlt⟩
    rw [hproject, henvironment]

/-- Two consistent graphs that resemble each other answer alike and go on resembling each other. -/
theorem Resembles.perform (h : g.Resembles g') (hg : g.WaitsRightly) (hg' : g'.WaitsRightly)
    (op : Operation) :
    (g'.perform op).1 = (g.perform op).1 ∧ (g.perform op).2.Resembles (g'.perform op).2 := by
  -- Only `takeNext` answers with more than success or refusal.
  cases op with
  | add project environment => exact h.settle (h.add project environment)
  | addDependency file file' => exact h.settle (h.addDependency file file')
  | takeNext =>
    unfold ProjectGraph.perform
    rcases h.takeNext hg hg' with ⟨htake, htake'⟩ | ⟨request, g₁, g₁', htake, htake', hnext⟩
    · rw [htake, htake']
      exact ⟨rfl, h⟩
    · rw [htake, htake']
      exact ⟨rfl, hnext⟩
  | markSucceeded file => exact h.settle (h.markSucceeded file)
  | markFailed file => exact h.settle (h.markFailed file)

/-! ## The same view -/

/-- Graphs that resemble each other show the same statuses. -/
theorem Resembles.status?_eq (h : g.Resembles g') : g'.status? = g.status? := by
  funext file
  rw [status?, status?, index?_eq_of_shape h.shape, funext h.status]

/-- Graphs that resemble each other list the same projects for each status. -/
theorem Resembles.withStatus_eq (h : g.Resembles g') : g'.withStatus = g.withStatus := by
  have hmap : (g'.nodes.map fun n => (n.project.file, n.status)) =
      g.nodes.map fun n => (n.project.file, n.status) := by
    refine List.ext_getElem? fun k => ?_
    -- The list reads files and statuses, both of which are told by positions.
    have key (g : ProjectGraph) :
        (g.nodes.map fun n => (n.project.file, n.status))[k]? =
          (g.projectAt? k).bind fun p => (g.statusAt k).map fun s => (p.file, s) := by
      rw [List.getElem?_map, projectAt?, statusAt]
      cases g.nodes[k]? <;> rfl
    rw [key, key, projectAt?_eq_of_shape h.shape, h.status]
  funext s
  have key (g : ProjectGraph) :
      g.withStatus s =
        ((g.nodes.map fun n => (n.project.file, n.status)).filter (·.2 = s)).map Prod.fst := by
    rw [List.filter_map, List.map_map]
    rfl
  rw [key, key, hmap]

/-- Graphs that resemble each other have the same number of finished projects. -/
theorem Resembles.finishedCount_eq (h : g.Resembles g') (hg : g.Accounted) (hg' : g'.Accounted) :
    g'.finishedCount = g.finishedCount := by
  rw [hg'.count, hg.count, statuses_eq_of_statusAt h.status]

/-- Graphs that resemble each other have finished together. -/
theorem Resembles.finished_eq (h : g.Resembles g') (hg : g.Accounted) (hg' : g'.Accounted) :
    g'.finished = g.finished := by
  have hempty : g'.nodes = [] ↔ g.nodes = [] := by
    rw [← List.length_eq_zero_iff, h.length_eq, List.length_eq_zero_iff]
  rw [Bool.eq_iff_iff, hg'.finished_iff, hg.finished_iff, all_isFinished_iff, all_isFinished_iff,
    ne_eq, ne_eq, hempty]
  simp only [h.unfinished_iff]

/-- Graphs that resemble each other offer the same. -/
theorem Resembles.poll_eq (h : g.Resembles g') (hg : g.Consistent) (hg' : g'.Consistent)
    (cancelled : Bool) : (g'.poll cancelled).1 = (g.poll cancelled).1 := by
  unfold poll
  -- The poll looks at the token, at whether all is finished, and at the next project.
  cases cancelled with
  | true => rfl
  | false =>
    rw [h.finished_eq hg.toAccounted hg'.toAccounted,
      h.finishedCount_eq hg.toAccounted hg'.toAccounted, h.length_eq]
    rcases h.takeNext hg.waitsRightly hg'.waitsRightly with
      ⟨htake, htake'⟩ | ⟨request, g₁, g₁', htake, htake', -⟩
    · rw [htake, htake']
      simp only [Bool.false_eq_true, if_false]
      split <;> rfl
    · rw [htake, htake']
      rfl

/-- Graphs that resemble each other show the same. -/
theorem Resembles.view_eq (h : g.Resembles g') (hg : g.Consistent) (hg' : g'.Consistent) :
    g'.view = g.view := by
  rw [view, view, h.status?_eq, h.withStatus_eq, edges_eq_of_shape h.shape,
    h.finished_eq hg.toAccounted hg'.toAccounted, funext (h.poll_eq hg hg')]

/-- Consistent graphs that resemble each other cannot be told apart. -/
theorem Resembles.indistinguishable (h : g.Resembles g') (hg : g.Consistent)
    (hg' : g'.Consistent) : g.Indistinguishable g' := by
  intro ops
  induction ops generalizing g g' with
  | nil => exact ⟨rfl, h.view_eq hg hg'⟩
  | cons op ops ih =>
    obtain ⟨hanswer, hnext⟩ := h.perform hg.waitsRightly hg'.waitsRightly op
    obtain ⟨hanswers, hview⟩ :=
      ih hnext (hg.performs (g.perform_performs op)) (hg'.performs (g'.perform_performs op))
    exact ⟨by rw [performAll, performAll, hanswer, hanswers], hview⟩

end ProjectGraph

end BuildEngine
