import BuildEngine.Proofs.Graph.Reachability
import BuildEngine.Proofs.Graph.Skipping

/-!
# What the operations make of a graph

An operation that is not refused changes a graph in one of five ways: a project is registered,
connected to a dependency, handed out, has succeeded or is lost. The `_eq_ok_iff` lemmas say which
of them an operation is and under which condition it is not refused; below them stands what the
five ways do to the statuses, the edges and what is outstanding. Proofs about operations start
from here and do not open the operations again.
-/

namespace BuildEngine.ProjectGraph

open Relation

variable {g g' : ProjectGraph} {i j k : Nat} {file : Path} {s : ProjectStatus}

/-! ## The five ways to change a graph -/

/-- Appends a project that waits to be built and depends on nothing. -/
def register (g : ProjectGraph) (project : Project) (environment : Environment) : ProjectGraph :=
  { g with
    nodes := g.nodes ++ [⟨project, some environment, .todo, [], [], []⟩]
    finished := false }

/-- Marks a project as being built and takes its environment away. -/
def handOut (g : ProjectGraph) (i : Nat) : ProjectGraph :=
  g.modifyAt i fun n => { n with status := .inFlight, environment := none }

/-- Lets a project succeed; nothing waits for it any more. -/
def succeed (g : ProjectGraph) (i : Nat) : ProjectGraph :=
  ((g.finish i .succeeded).release i).updateFinished

/-- Gives a project up with a status, and skips what waits behind it. -/
def giveUp (g : ProjectGraph) (i : Nat) (s : ProjectStatus) : ProjectGraph :=
  ((g.finish i s).skipDependents i).updateFinished

/-! ## Which change an operation is -/

/-- A file with a number is the file of a project. -/
theorem exists_getElem?_of_index? (h : g.index? file = some i) :
    ∃ n, g.nodes[i]? = some n ∧ n.project.file.same file = true := by
  obtain ⟨hi, hfile, -⟩ := List.findIdx?_eq_some_iff_getElem.1 h
  exact ⟨_, List.getElem?_eq_getElem hi, hfile⟩

/-- A project that is found has a place. -/
theorem lt_length_of_index? (h : g.index? file = some i) : i < g.nodes.length := by
  obtain ⟨n, hn, -⟩ := exists_getElem?_of_index? h
  exact (List.getElem?_eq_some_iff.1 hn).1

/-- A project is added if its file is new, at the end. -/
theorem add_eq_ok_iff {project : Project} {environment : Environment} :
    g.add project environment = .ok g' ↔
      g.index? project.file = none ∧ g' = g.register project environment := by
  unfold add register
  cases g.index? project.file with
  | none => simp [eq_comm]
  | some i => simp

/-- A dependency is added if both projects are there, the first one waits, and no cycle is closed.
-/
theorem addDependency_eq_ok_iff {file' : Path} :
    g.addDependency file file' = .ok g' ↔
      ∃ i j, g.index? file = some i ∧ g.index? file' = some j ∧ g.statusAt i = some .todo ∧
        ¬ ReflTransGen g.Needs j i ∧ g' = g.connect i j := by
  unfold addDependency index
  -- The checks in the order of the code: both files, the status, the cycle.
  cases g.index? file with
  | none => simp [bind, Except.bind]
  | some i =>
    cases g.index? file' with
    | none => simp [bind, Except.bind]
    | some j =>
      simp only [bind, Except.bind]
      split
      · next h => simp [h]
      · next h =>
        rw [ne_eq, not_not] at h
        split
        · next hji => simp [closesCycle_iff.1 hji]
        · next hji => simp [h, mt closesCycle_iff.2 hji, pure, Except.pure, eq_comm]

/-- A success is noted of every project that is there. -/
theorem markSucceeded_eq_ok_iff :
    g.markSucceeded file = .ok g' ↔ ∃ i, g.index? file = some i ∧ g' = g.succeed i := by
  unfold markSucceeded index succeed
  cases g.index? file <;> simp [bind, Except.bind, pure, Except.pure, eq_comm]

/-- A failure is noted of every project that is there. -/
theorem markFailed_eq_ok_iff :
    g.markFailed file = .ok g' ↔ ∃ i, g.index? file = some i ∧ g' = g.giveUp i .failed := by
  unfold markFailed index giveUp
  cases g.index? file <;> simp [bind, Except.bind, pure, Except.pure, eq_comm]

/-- The first project that can be handed out is handed out, with what environment it has. -/
theorem takeNext_eq_some_iff {request : BuildRequest} :
    g.takeNext = some (request, g') ↔
      ∃ i n, g.nodes[i]? = some n ∧ g.Ready i ∧ (∀ k < i, ¬ g.Ready k) ∧
        request = ⟨n.project, n.environment.getD .empty⟩ ∧ g' = g.handOut i := by
  have hready (k : Nat) (hk : k < g.nodes.length) :
      g.Ready k ↔ g.nodes[k].isReady = true :=
    ready_iff_of_getElem? (List.getElem?_eq_getElem hk)
  unfold takeNext
  constructor
  -- The first position that is ready is the one `findIdx?` returns.
  · intro h
    split at h
    · cases h
    · next i hfind =>
      obtain ⟨hi, hisReady, hfirst⟩ := List.findIdx?_eq_some_iff_getElem.1 hfind
      rw [List.getElem?_eq_getElem hi] at h
      simp only [Option.some.injEq, Prod.mk.injEq] at h
      refine ⟨i, g.nodes[i], List.getElem?_eq_getElem hi, (hready i hi).2 hisReady, ?_,
        h.1.symm, h.2.symm⟩
      intro k hk hkReady
      exact hfirst k hk ((hready k (hk.trans hi)).1 hkReady)
  · rintro ⟨i, n, hn, hisReady, hfirst, rfl, rfl⟩
    obtain ⟨hi, hget⟩ := List.getElem?_eq_some_iff.1 hn
    have hfind : g.nodes.findIdx? ProjectNode.isReady = some i := by
      refine List.findIdx?_eq_some_iff_getElem.2 ⟨hi, (hready i hi).1 hisReady, ?_⟩
      intro k hk hkReady
      exact hfirst k hk ((hready k (hk.trans hi)).2 hkReady)
    simp only [hfind, hn]
    rfl

/-- Nothing is handed out exactly if nothing is ready. -/
theorem takeNext_eq_none_iff : g.takeNext = none ↔ ∀ i, ¬ g.Ready i := by
  -- A ready position would be found; one that is found is ready.
  constructor
  · intro h i hi
    obtain ⟨n, hn, -⟩ := exists_getElem?_of_statusAt hi.1
    have hfind : g.nodes.findIdx? ProjectNode.isReady ≠ none := by
      rw [Ne, List.findIdx?_eq_none_iff]
      intro hnone
      have := hnone n (List.mem_of_getElem? hn)
      rw [(ready_iff_of_getElem? hn).1 hi] at this
      cases this
    obtain ⟨m, hm⟩ := Option.ne_none_iff_exists'.1 hfind
    obtain ⟨hlt, -⟩ := List.findIdx?_eq_some_iff_getElem.1 hm
    unfold takeNext at h
    rw [hm] at h
    simp only [List.getElem?_eq_getElem hlt] at h
    cases h
  · intro h
    cases htake : g.takeNext with
    | none => rfl
    | some result =>
      obtain ⟨i, n, -, hready, -⟩ := takeNext_eq_some_iff.1 htake
      exact absurd hready (h i)

/-! ## Connecting two projects -/

/-- A dependency that is there changes nothing. -/
theorem connect_of_needs (h : g.Needs i j) : g.connect i j = g :=
  if_pos h

/-- What has succeeded is not waited for. -/
theorem connect_of_succeeded (h : ¬ g.Needs i j) (hj : g.statusAt j = some .succeeded) :
    g.connect i j = g.link i j false := by
  unfold connect
  rw [if_neg (show j ∉ g.dependenciesAt i from h), hj]

/-- What is unfinished is waited for. -/
theorem connect_of_unfinished (h : ¬ g.Needs i j) (hj : g.Unfinished j) :
    g.connect i j = g.link i j true := by
  unfold connect
  rcases hj with hj | hj <;> rw [if_neg (show j ∉ g.dependenciesAt i from h), hj]

/-- What comes to depend on a lost project is given up. -/
theorem connect_of_lost (h : ¬ g.Needs i j) (hj : g.Lost j) :
    g.connect i j = (g.link i j false).giveUp i .skipped := by
  unfold connect giveUp
  rcases hj with hj | hj <;> rw [if_neg (show j ∉ g.dependenciesAt i from h), hj]

/-- Connecting two projects adds an edge, and may then give up the first one. -/
theorem connect_cases (g : ProjectGraph) (i : Nat) (hj : j < g.nodes.length) :
    g.connect i j = g ∨ (∃ waits, g.connect i j = g.link i j waits) ∨
      g.connect i j = (g.link i j false).giveUp i .skipped := by
  by_cases hij : g.Needs i j
  · exact .inl (connect_of_needs hij)
  rcases unfinished_or_succeeded_or_lost hj with hunf | hsucc | hlost
  · exact .inr (.inl ⟨_, connect_of_unfinished hij hunf⟩)
  · exact .inr (.inl ⟨_, connect_of_succeeded hij hsucc⟩)
  · exact .inr (.inr (connect_of_lost hij hlost))

/-! ## What each change does -/

/-- What stands at a place of a list with one more element. -/
theorem getElem?_concat {α : Type} (l : List α) (a : α) (k : Nat) :
    (l ++ [a])[k]? = if k = l.length then some a else l[k]? := by
  rcases Nat.lt_trichotomy k l.length with hk | rfl | hk
  · rw [List.getElem?_append_left hk, if_neg (by omega)]
  · rw [List.getElem?_concat_length, if_pos rfl]
  · rw [if_neg (by omega), List.getElem?_eq_none (by simp; omega), List.getElem?_eq_none (by omega)]

section Register

variable (g : ProjectGraph) (project : Project) (environment : Environment) (k : Nat)

/-- A new project stands behind all others. -/
theorem getElem?_register : (g.register project environment).nodes[k]? =
    if k = g.nodes.length then some ⟨project, some environment, .todo, [], [], []⟩
    else g.nodes[k]? :=
  getElem?_concat ..

/-- A new project waits, and all others have the status they had. -/
theorem statusAt_register : (g.register project environment).statusAt k =
    if k = g.nodes.length then some .todo else g.statusAt k := by
  rw [statusAt, getElem?_register, statusAt]
  split <;> rfl

/-- A new project comes last. -/
theorem projectAt?_register : (g.register project environment).projectAt? k =
    if k = g.nodes.length then some project else g.projectAt? k := by
  rw [projectAt?, getElem?_register, projectAt?]
  split <;> rfl

/-- A new project waits with its environment. -/
theorem environmentAt?_register : (g.register project environment).environmentAt? k =
    if k = g.nodes.length then some environment else g.environmentAt? k := by
  rw [environmentAt?, getElem?_register, environmentAt?]
  split <;> rfl

/-- A list that is empty for a new project is the same for all numbers as before. -/
private theorem getD_getElem?_register {φ : ProjectNode → List Nat}
    (h : φ ⟨project, some environment, .todo, [], [], []⟩ = []) :
    ((g.register project environment).nodes[k]?.map φ).getD [] =
      (g.nodes[k]?.map φ).getD [] := by
  rw [getElem?_register]
  by_cases hk : k = g.nodes.length
  · rw [if_pos hk, hk, List.getElem?_eq_none (Nat.le_refl _)]
    exact h
  · rw [if_neg hk]

/-- A new project waits for nothing, and no other one waits for more. -/
@[simp]
theorem outstandingAt_register :
    (g.register project environment).outstandingAt k = g.outstandingAt k :=
  getD_getElem?_register g project environment k rfl

/-- A new project has no dependents, and no other one has more. -/
@[simp]
theorem dependentsAt_register :
    (g.register project environment).dependentsAt k = g.dependentsAt k := by
  rw [dependentsAt_eq, dependentsAt_eq]
  exact getD_getElem?_register g project environment k rfl

/-- A new project has no dependencies, and no other one has more. -/
@[simp]
theorem dependenciesAt_register :
    (g.register project environment).dependenciesAt k = g.dependenciesAt k := by
  rw [dependenciesAt_eq, dependenciesAt_eq]
  exact getD_getElem?_register g project environment k rfl

/-- A new project brings no edges. -/
@[simp]
theorem needs_register : (g.register project environment).Needs = g.Needs := by
  funext i j
  rw [Needs, Needs, dependenciesAt_register]

end Register

/-- A project that is handed out is being built, and all others are as they were. -/
theorem statusAt_handOut (hi : i < g.nodes.length) (k : Nat) :
    (g.handOut i).statusAt k = if k = i then some .inFlight else g.statusAt k := by
  unfold statusAt handOut
  rw [getElem?_modifyAt]
  by_cases hk : k = i
  · rw [if_pos hk, if_pos hk, hk, List.getElem?_eq_getElem hi]
    rfl
  · rw [if_neg hk, if_neg hk]

/-- A project that is handed out is being built. -/
theorem statusAt_handOut_self (hi : i < g.nodes.length) :
    (g.handOut i).statusAt i = some .inFlight :=
  (statusAt_handOut hi i).trans (if_pos rfl)

/-- Handing a project out changes the status of no other one. -/
theorem statusAt_handOut_of_ne (hi : i < g.nodes.length) (hk : k ≠ i) :
    (g.handOut i).statusAt k = g.statusAt k :=
  (statusAt_handOut hi k).trans (if_neg hk)

/-- Handing a project out does not change what is waited for. -/
@[simp]
theorem outstandingAt_handOut (g : ProjectGraph) (i k : Nat) :
    (g.handOut i).outstandingAt k = g.outstandingAt k := by
  unfold outstandingAt handOut
  rw [map_getElem?_modifyAt]
  exact fun _ => rfl

/-- Handing a project out changes neither projects nor edges. -/
@[simp]
theorem shape_handOut (g : ProjectGraph) (i : Nat) : (g.handOut i).shape = g.shape :=
  shape_modifyAt fun _ => rfl

/-- A success changes neither projects nor edges. -/
@[simp]
theorem shape_succeed (g : ProjectGraph) (i : Nat) : (g.succeed i).shape = g.shape := by
  simp [succeed]

/-- A success changes one status. -/
theorem statusAt_succeed (g : ProjectGraph) (i k : Nat) :
    (g.succeed i).statusAt k = (g.finish i .succeeded).statusAt k := by
  simp [succeed]

/-- Nothing waits for what has succeeded, provided that only its dependents waited for it. -/
theorem mem_outstandingAt_succeed_iff (h : i ∈ g.outstandingAt k → k ∈ g.dependentsAt i) :
    j ∈ (g.succeed i).outstandingAt k ↔ j ∈ g.outstandingAt k ∧ j ≠ i := by
  have hshape : (g.finish i .succeeded).shape = g.shape := shape_finish g i _
  rw [succeed, outstandingAt_updateFinished, outstandingAt_release, outstandingAt_finish,
    dependentsAt_eq_of_shape hshape]
  by_cases hk : k ∈ g.dependentsAt i
  · simp [hk]
  · rw [if_neg hk]
    refine ⟨fun hj => ⟨hj, ?_⟩, And.left⟩
    rintro rfl
    exact hk (h hj)

/-- A failure changes neither projects nor edges. -/
@[simp]
theorem shape_giveUp (g : ProjectGraph) (i : Nat) (s : ProjectStatus) :
    (g.giveUp i s).shape = g.shape := by
  simp [giveUp, skipDependents]

/-- A failure does not change what is waited for. -/
@[simp]
theorem outstandingAt_giveUp (g : ProjectGraph) (i : Nat) (s : ProjectStatus) (k : Nat) :
    (g.giveUp i s).outstandingAt k = g.outstandingAt k := by
  simp [giveUp, skipDependents]

open Classical in
/-- A project that is given up gets its status, and what waits behind it is skipped. -/
theorem statusAt_giveUp (g : ProjectGraph) (i : Nat) (s : ProjectStatus) (k : Nat) :
    (g.giveUp i s).statusAt k =
      if (g.finish i s).CutOff [i] k then some .skipped else (g.finish i s).statusAt k := by
  rw [giveUp, statusAt_updateFinished, skipDependents, statusAt_skipBehind]

/-- What is given up gets its status; the search behind it does not come back to it. -/
theorem statusAt_giveUp_self (hi : g.Unfinished i) (hs : s.isFinished = true) :
    (g.giveUp i s).statusAt i = some s := by
  have hcut : ¬ (g.finish i s).CutOff [i] i := fun hcut =>
    not_unfinished_finish_self hs (.inl hcut.statusAt)
  rw [statusAt_giveUp, if_neg hcut, statusAt_finish_self hi]

end BuildEngine.ProjectGraph
