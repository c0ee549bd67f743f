import BuildEngine.Proofs.Graph.Failure

/-!
# What is handed out

As long as reports are about what was handed out and not reported since, a graph agrees with its
history (`Ledger`): what waits has the environment it was registered with, what was handed out has
been started, and what has been built was reported. So whoever is told only by the history what
may be reported, reports about projects that are being built, and what `Failure` says of such
reports applies. A project that was started gets no new dependencies and is never waiting again,
and therefore it is handed out once, and all it rests on has succeeded for good.
-/

namespace BuildEngine

namespace ProjectGraph

variable {g g' g'' : ProjectGraph} {i j k : Nat} {s : ProjectStatus}

/-- The project with a number waits to be built, and all it needs has succeeded. -/
def Buildable (g : ProjectGraph) (i : Nat) : Prop :=
  g.statusAt i = some .todo ∧ ∀ j, g.Needs i j → g.statusAt j = some .succeeded

/-- What can be handed out is exactly what should be. -/
theorem Sound.ready_iff_buildable (h : g.Sound) : g.Ready i ↔ g.Buildable i := by
  refine ⟨fun hi => ⟨hi.1, fun j => h.succeeded_of_ready hi⟩, fun hi => ⟨hi.1, ?_⟩⟩
  refine List.eq_nil_iff_forall_not_mem.2 fun j hj => ?_
  obtain ⟨hij, hunf⟩ := (h.waitsRightly i hi.1 j).1 hj
  exact hunf.ne_succeeded (hi.2 j hij)

/-! ## What was started stays started -/

/-- What has been handed out stays so when a project finishes. -/
theorem Started.finish (h : g.Started k) (hs : k = i → s = .succeeded ∨ s = .failed) :
    (g.finish i s).Started k := by
  by_cases hk : k = i
  · subst hk
    by_cases hunf : g.Unfinished k
    · rw [Started, statusAt_finish_self hunf]
      rcases hs rfl with rfl | rfl <;> simp
    · rwa [finish_of_not_unfinished hunf]
  · exact (started_congr (statusAt_finish_of_ne hk s)).2 h

/-- Giving up a project leaves started what was, unless the project itself is skipped. -/
theorem Started.giveUp (h : g.Started k) (hs : k = i → s = .failed) :
    (g.giveUp i s).Started k := by
  have hfinish : (g.finish i s).Started k := h.finish fun hk => .inr (hs hk)
  refine (started_congr ?_).2 hfinish
  rw [statusAt_giveUp, if_neg fun hcut => hfinish.ne_todo hcut.statusAt]

/-- What has been handed out stays so when a project succeeds. -/
theorem Started.succeed (h : g.Started k) : (g.succeed i).Started k :=
  (started_congr (statusAt_succeed g i k)).2 (h.finish fun _ => .inl rfl)

/-- No operation makes a project that was started wait again or be skipped. -/
theorem Performs.started {op : Operation} {answer : Answer} (hop : g.Performs op answer g')
    (hk : g.Started k) : g'.Started k := by
  -- One case for each operation. None of them makes a project wait again that was started.
  cases hop with
  | refused => exact hk
  | add hnew =>
    refine (started_congr ?_).2 hk
    rw [statusAt_register, if_neg hk.lt_length.ne]
  -- The beginning of a new edge still waits, so it is not `k`.
  | @addDependency _ _ i j hi hj htodo hacyclic =>
    have hki : k ≠ i := fun hki => hk.ne_todo (hki ▸ htodo)
    have hlink (waits : Bool) : (g.link i j waits).Started k :=
      (started_congr (statusAt_link ..)).2 hk
    rcases connect_cases g i (lt_length_of_index? hj) with heq | ⟨waits, heq⟩ | heq <;> rw [heq]
    · exact hk
    · exact hlink waits
    · exact (hlink false).giveUp fun h => absurd h hki
  | nothing _ => exact hk
  | @takeNext i n hn hready hfirst =>
    have hki : k ≠ i := fun hki => hk.ne_todo (hki ▸ hready.1)
    refine (started_congr ?_).2 hk
    rw [statusAt_handOut (lt_length_of_statusAt hready.1), if_neg hki]
  | markSucceeded hi => exact hk.succeed
  | markFailed hi => exact hk.giveUp fun _ => rfl

/-- No operation takes a dependency away. -/
theorem Performs.needs {op : Operation} {answer : Answer} (hop : g.Performs op answer g')
    (hij : g.Needs i j) : g'.Needs i j := by
  -- One case for each operation. Only a new edge changes what is needed, and it adds to it.
  cases hop with
  | refused => exact hij
  | add hnew => rwa [needs_register]
  | @addDependency _ _ a b ha hb htodo hacyclic =>
    have hlink (waits : Bool) : (g.link a b waits).Needs i j :=
      (needs_link_iff (lt_length_of_index? ha) b waits i j).2 (.inl hij)
    -- The edge was there, is added, or is added and its beginning given up.
    rcases connect_cases g a (lt_length_of_index? hb) with heq | ⟨waits, heq⟩ | heq <;> rw [heq]
    · exact hij
    · exact hlink waits
    · rw [needs_eq_of_shape (shape_giveUp ..)]
      exact hlink false
  | nothing _ => exact hij
  | takeNext hn hready hfirst => rwa [needs_eq_of_shape (shape_handOut ..)]
  | markSucceeded hi => rwa [needs_eq_of_shape (shape_succeed ..)]
  | markFailed hi => rwa [needs_eq_of_shape (shape_giveUp ..)]

/-! ## What waits keeps its environment -/

/-- What waits in the second graph waited in the first one, with the same environment. -/
def KeepsWaiting (g g' : ProjectGraph) : Prop :=
  ∀ k, g'.statusAt k = some .todo →
    g.statusAt k = some .todo ∧ g'.environmentAt? k = g.environmentAt? k

/-- What waited two steps ago waited with the same environment. -/
theorem KeepsWaiting.trans (h : g.KeepsWaiting g') (h' : g'.KeepsWaiting g'') :
    g.KeepsWaiting g'' := by
  intro k hk
  obtain ⟨hk', henv'⟩ := h' k hk
  obtain ⟨hk'', henv⟩ := h k hk'
  exact ⟨hk'', henv'.trans henv⟩

/-- A change that keeps all statuses and environments keeps what waits. -/
private theorem keepsWaiting_of_eq (hstatus : ∀ k, g'.statusAt k = g.statusAt k)
    (henvironment : ∀ k, g'.environmentAt? k = g.environmentAt? k) : g.KeepsWaiting g' :=
  fun k hk => ⟨(hstatus k).symm.trans hk, henvironment k⟩

/-- What still waits when a project finishes waited before. -/
theorem keepsWaiting_finish (g : ProjectGraph) (i : Nat) (hs : s.isFinished = true) :
    g.KeepsWaiting (g.finish i s) := by
  intro k hk
  have hki : k ≠ i := by
    rintro rfl
    exact not_unfinished_finish_self hs (.inl hk)
  rw [statusAt_finish_of_ne hki] at hk
  exact ⟨hk, by rw [environmentAt?, getElem?_finish_of_ne hki, environmentAt?]⟩

/-- Noting that all have finished makes nothing wait. -/
theorem keepsWaiting_updateFinished (g : ProjectGraph) : g.KeepsWaiting g.updateFinished :=
  keepsWaiting_of_eq (statusAt_updateFinished g) fun k => by
    rw [environmentAt?, nodes_updateFinished, environmentAt?]

/-- What still waits when a project is given up waited before. -/
theorem keepsWaiting_giveUp (g : ProjectGraph) (i : Nat) (hs : s.isFinished = true) :
    g.KeepsWaiting (g.giveUp i s) := by
  have hskip : g.KeepsWaiting ((g.finish i s).skipBehind [i]) :=
    skipBehind_keeps (P := g.KeepsWaiting)
      (fun g' i hg' => hg'.trans (keepsWaiting_finish g' i rfl)) (keepsWaiting_finish g i hs) [i]
  exact hskip.trans (keepsWaiting_updateFinished _)

/-- What still waits when a project succeeds waited before. -/
theorem keepsWaiting_succeed (g : ProjectGraph) (i : Nat) : g.KeepsWaiting (g.succeed i) := by
  have hrelease := keepsWaiting_of_eq (statusAt_release (g.finish i .succeeded) i)
    (environmentAt?_release (g.finish i .succeeded) i)
  exact ((keepsWaiting_finish g i rfl).trans hrelease).trans (keepsWaiting_updateFinished _)

/-- What still waits when a dependency is added waited before. -/
theorem keepsWaiting_connect (g : ProjectGraph) (i : Nat) (hj : j < g.nodes.length) :
    g.KeepsWaiting (g.connect i j) := by
  have hlink (waits : Bool) : g.KeepsWaiting (g.link i j waits) :=
    keepsWaiting_of_eq (statusAt_link g i j waits) (environmentAt?_link g i j waits)
  rcases connect_cases g i hj with heq | ⟨waits, heq⟩ | heq <;> rw [heq]
  · exact fun k hk => ⟨hk, rfl⟩
  · exact hlink waits
  · exact (hlink false).trans (keepsWaiting_giveUp _ i rfl)

/-- What still waits when a project is handed out waited before. -/
theorem keepsWaiting_handOut (hi : i < g.nodes.length) : g.KeepsWaiting (g.handOut i) := by
  intro k hk
  rw [statusAt_handOut hi] at hk
  split at hk
  · cases hk
  · next hki =>
    refine ⟨hk, ?_⟩
    rw [environmentAt?, handOut, getElem?_modifyAt, if_neg hki, environmentAt?]

/-! ## What was reported -/

/-- The project with a number has been built, with or without success. -/
def Ended (g : ProjectGraph) (i : Nat) : Prop :=
  g.statusAt i = some .succeeded ∨ g.statusAt i = some .failed

/-- What has been built succeeded or failed. -/
theorem ended_iff_of_statusAt (h : g.statusAt i = some s) :
    g.Ended i ↔ s = .succeeded ∨ s = .failed := by
  rw [Ended, h, Option.some.injEq, Option.some.injEq]

/-- Whether a project has been built is told by its status. -/
theorem ended_congr (h : g'.statusAt i = g.statusAt i) : g'.Ended i ↔ g.Ended i := by
  rw [Ended, Ended, h]

/-- A project is being built from when it is started until it has been built. -/
theorem Started.inFlight (h : g.Started i) (hended : ¬ g.Ended i) :
    g.statusAt i = some .inFlight :=
  h.resolve_right hended

/-- When a project succeeds, no other one has been built by it. -/
theorem ended_of_succeed (hk : (g.succeed i).Ended k) (hki : k ≠ i) : g.Ended k :=
  (ended_congr ((statusAt_succeed g i k).trans (statusAt_finish_of_ne hki _))).1 hk

/-- Giving a project up ends at most that project, the others are skipped. -/
theorem ended_of_giveUp (hk : (g.giveUp i s).Ended k) (hki : k ≠ i) : g.Ended k := by
  by_cases hcut : (g.finish i s).CutOff [i] k
  · have hskipped := (statusAt_giveUp g i s k).trans (if_pos hcut)
    exact absurd ((ended_iff_of_statusAt hskipped).1 hk) (by decide)
  · exact (ended_congr (statusAt_giveUp_of_not_cutOff hki hcut)).1 hk

/-- Connecting a waiting project to another one ends nothing. -/
theorem ended_of_connect (hi : g.statusAt i = some .todo) (hj : j < g.nodes.length)
    (hk : (g.connect i j).Ended k) : g.Ended k := by
  have hlink (waits : Bool) : (g.link i j waits).Ended k ↔ g.Ended k :=
    ended_congr (statusAt_link ..)
  rcases connect_cases g i hj with heq | ⟨waits, heq⟩ | heq <;> rw [heq] at hk
  · exact hk
  · exact (hlink waits).1 hk
  · by_cases hki : k = i
    · subst hki
      have hself : ((g.link k j false).giveUp k .skipped).statusAt k = some .skipped :=
        statusAt_giveUp_self (.inl ((statusAt_link ..).trans hi)) rfl
      exact absurd ((ended_iff_of_statusAt hself).1 hk) (by decide)
    · exact (hlink false).1 (ended_of_giveUp hk hki)

/-- A new dependency changes no project. -/
theorem projectAt?_connect (g : ProjectGraph) (i : Nat) (hj : j < g.nodes.length) (k : Nat) :
    (g.connect i j).projectAt? k = g.projectAt? k := by
  rcases connect_cases g i hj with heq | ⟨waits, heq⟩ | heq <;> rw [heq]
  · exact projectAt?_link ..
  · rw [projectAt?_eq_of_shape (shape_giveUp ..), projectAt?_link]

/-- No operation replaces a project. -/
theorem Performs.projectAt?_eq {op : Operation} {answer : Answer} {p : Project}
    (hop : g.Performs op answer g') (hk : g.projectAt? k = some p) : g'.projectAt? k = some p := by
  -- Projects keep their positions under every operation.
  cases hop with
  | refused => exact hk
  | add hnew =>
    have hlt : k < g.nodes.length := by
      obtain ⟨n, hn, -⟩ := Option.map_eq_some_iff.1 hk
      exact (List.getElem?_eq_some_iff.1 hn).1
    rw [projectAt?_register, if_neg hlt.ne, hk]
  | addDependency hi hj htodo hacyclic => rw [projectAt?_connect _ _ (lt_length_of_index? hj), hk]
  | nothing _ => exact hk
  | takeNext hn hready hfirst => rw [projectAt?_eq_of_shape (shape_handOut ..), hk]
  | markSucceeded hi => rw [projectAt?_eq_of_shape (shape_succeed ..), hk]
  | markFailed hi => rw [projectAt?_eq_of_shape (shape_giveUp ..), hk]

/-- Every operation leaves the projects their numbers. -/
theorem Performs.index?_eq {op : Operation} {answer : Answer} {file : Path}
    (hop : g.Performs op answer g') (hg : g.Consistent) (hk : g.index? file = some k) :
    g'.index? file = some k := by
  obtain ⟨p, hp, hsame⟩ := (hg.index?_eq_some_iff file).1 hk
  exact ((hg.performs hop).index?_eq_some_iff file).2 ⟨p, hop.projectAt?_eq hp, hsame⟩

end ProjectGraph

open ProjectGraph

namespace History

variable {h h' : History} {op : Operation} {answer : Answer} {g : ProjectGraph} {file : Path}

/-- The history after one more operation with its answer, and the graph after it. -/
def record (h : History) (op : Operation) (answer : Answer) (g : ProjectGraph) : History :=
  ⟨h.entries ++ [(op, answer)], g⟩

/-- One more operation registers what it adds. -/
theorem registered_record (h : History) (op : Operation) (answer : Answer) (g : ProjectGraph) :
    (h.record op answer g).registered = h.registered ++ registered ⟨[(op, answer)], g⟩ :=
  List.filterMap_append

/-- One more operation hands out what it answers. -/
theorem handedOut_record (h : History) (op : Operation) (answer : Answer) (g : ProjectGraph) :
    (h.record op answer g).handedOut = h.handedOut ++ handedOut ⟨[(op, answer)], g⟩ :=
  List.filterMap_append

/-- One more operation reports what it reports. -/
theorem reported_record (h : History) (op : Operation) (answer : Answer) (g : ProjectGraph) :
    (h.record op answer g).reported = h.reported ++ reported ⟨[(op, answer)], g⟩ :=
  List.filterMap_append

/-- A graph agrees with its history: it says the same about the projects that were registered,
handed out and reported. -/
structure Agrees (h : History) : Prop where
  /-- Every status is justified. -/
  sound : h.graph.Sound
  /-- Projects are numbered in the order in which they were registered. -/
  projects : ∀ i, h.graph.projectAt? i = h.registered[i]?.map BuildRequest.project
  /-- What waits has the environment it was registered with. -/
  environments : ∀ i, h.graph.statusAt i = some .todo →
    h.graph.environmentAt? i = h.registered[i]?.map BuildRequest.environment
  /-- What was handed out was registered like this, and has been started. -/
  started : ∀ request ∈ h.handedOut, ∃ i, h.registered[i]? = some request ∧ h.graph.Started i
  /-- No two projects that were handed out are the same. -/
  once : h.handedOut.Pairwise fun a b => a.project.file.same b.project.file = false
  /-- What has been built was reported. -/
  ended : ∀ i p, h.graph.projectAt? i = some p → h.graph.Ended i →
    ∃ file ∈ h.reported, file.same p.file = true

/-- What was handed out and not reported since is being built. -/
theorem Agrees.inFlight (h' : h.Agrees) (hfile : awaitedReport h file) :
    h.graph.status? file = some .inFlight := by
  obtain ⟨⟨request, hrequest, hsame⟩, hnew⟩ := hfile
  obtain ⟨i, hi, hstarted⟩ := h'.started request hrequest
  have hproject : h.graph.projectAt? i = some request.project := by
    rw [h'.projects, hi, Option.map_some]
  have hindex := (h'.sound.index?_eq_some_iff file).2 ⟨_, hproject, hsame⟩
  rw [status?, hindex, Option.bind_some]
  -- Had it been built already, that would have been reported.
  refine hstarted.inFlight fun hended => ?_
  obtain ⟨file', hfile', hsame'⟩ := h'.ended i _ hproject hended
  have hne := hnew file' hfile'
  rw [Path.same_iff.2 ((Path.same_iff.1 hsame').trans (Path.same_iff.1 hsame))] at hne
  cases hne

/-! ## What operations keep in agreement -/

/-- At the start there is nothing to agree about. -/
theorem agrees_start : start.Agrees where
  sound := sound_empty
  projects _ := rfl
  environments _ _ := rfl
  started request hrequest := absurd hrequest List.not_mem_nil
  once := .nil
  ended _ _ hp := by simp [start, projectAt?, ProjectGraph.empty] at hp

/-- What was reported once has been reported. -/
private theorem Agrees.ended_record (ha : h.Agrees) {i : Nat} {p : Project}
    (hp : h.graph.projectAt? i = some p) (hi : h.graph.Ended i) :
    ∃ file ∈ (h.record op answer g).reported, file.same p.file = true := by
  obtain ⟨file, hfile, hsame⟩ := ha.ended i p hp hi
  rw [reported_record]
  exact ⟨file, List.mem_append_left _ hfile, hsame⟩

/-- A change that registers nothing and hands out nothing keeps a graph in agreement, if what it
ends is reported. -/
private theorem Agrees.change (ha : h.Agrees) (hsound : g.Sound)
    (hregistered : registered ⟨[(op, answer)], g⟩ = [])
    (hhandedOut : handedOut ⟨[(op, answer)], g⟩ = [])
    (hprojects : ∀ i, g.projectAt? i = h.graph.projectAt? i)
    (hwaiting : h.graph.KeepsWaiting g) (hstarted : ∀ i, h.graph.Started i → g.Started i)
    (hended : ∀ i p, h.graph.projectAt? i = some p → g.Ended i →
      ∃ file ∈ (h.record op answer g).reported, file.same p.file = true) :
    (h.record op answer g).Agrees := by
  have hregistered' : (h.record op answer g).registered = h.registered := by
    rw [registered_record, hregistered, List.append_nil]
  have hhandedOut' : (h.record op answer g).handedOut = h.handedOut := by
    rw [handedOut_record, hhandedOut, List.append_nil]
  -- The operation registers nothing and hands out nothing, so both lists are as before.
  refine ⟨hsound, fun i => ?_, fun i hi => ?_, fun request hrequest => ?_, hhandedOut' ▸ ha.once,
    fun i p hp hi => hended i p ((hprojects i).symm.trans hp) hi⟩
  · rw [hregistered']
    exact (hprojects i).trans (ha.projects i)
  · rw [hregistered']
    obtain ⟨htodo, henvironment⟩ := hwaiting i hi
    exact henvironment.trans (ha.environments i htodo)
  · rw [hhandedOut'] at hrequest
    obtain ⟨i, hi, hi'⟩ := ha.started request hrequest
    exact ⟨i, by rw [hregistered', hi], hstarted i hi'⟩

/-- As many projects were registered as the graph has. -/
private theorem Agrees.length_registered (ha : h.Agrees) :
    h.registered.length = h.graph.nodes.length := by
  have heq : h.graph.nodes.map ProjectNode.project = h.registered.map BuildRequest.project := by
    refine List.ext_getElem? fun i => ?_
    rw [List.getElem?_map, List.getElem?_map]
    exact ha.projects i
  simpa using (congrArg List.length heq).symm

/-- A graph agrees with its history after one more project. -/
private theorem Agrees.add {project : Project} (ha : h.Agrees)
    (hnew : h.graph.index? project.file = none) (environment : Environment) :
    (h.record (.add project environment) .done
      (h.graph.register project environment)).Agrees := by
  have hregistered (i : Nat) : (h.record (.add project environment) .done
      (h.graph.register project environment)).registered[i]? =
        if i = h.graph.nodes.length then some ⟨project, environment⟩ else h.registered[i]? := by
    rw [registered_record, ← ha.length_registered]
    exact getElem?_concat ..
  have hhandedOut : (h.record (.add project environment) .done
      (h.graph.register project environment)).handedOut = h.handedOut :=
    (handedOut_record ..).trans (List.append_nil _)
  have hold {i : Nat} (hi : i ≠ h.graph.nodes.length) :
      (h.graph.register project environment).statusAt i = h.graph.statusAt i := by
    rw [statusAt_register, if_neg hi]
  -- The new project stands behind all others, waits and was not handed out.
  refine ⟨ha.sound.register hnew environment, fun i => ?_, fun i hi => ?_,
    fun request hrequest => ?_, ?_, fun i p hp hi => ?_⟩
  · rw [hregistered]
    refine (projectAt?_register ..).trans ?_
    split
    · rfl
    · exact ha.projects i
  · rw [hregistered]
    refine (environmentAt?_register ..).trans ?_
    split
    · rfl
    · next hlt => exact ha.environments i ((hold hlt).symm.trans hi)
  · rw [hhandedOut] at hrequest
    obtain ⟨i, hi, hstarted⟩ := ha.started request hrequest
    have hne := hstarted.lt_length.ne
    exact ⟨i, by rw [hregistered, if_neg hne, hi], (started_congr (hold hne)).2 hstarted⟩
  · rw [hhandedOut]
    exact ha.once
  -- The new project has not ended, so what has ended was there before.
  · have hne : i ≠ h.graph.nodes.length := by
      rintro rfl
      have htodo := (statusAt_register h.graph project environment _).trans (if_pos rfl)
      exact absurd ((ended_iff_of_statusAt htodo).1 hi) (by decide)
    refine ha.ended_record ?_ ((ended_congr (hold hne)).1 hi)
    rwa [record, projectAt?_register, if_neg hne] at hp

/-- What is handed out is what was registered. -/
theorem Agrees.registered_of_todo {i : Nat} {n : ProjectNode} (ha : h.Agrees)
    (hn : h.graph.nodes[i]? = some n) (hi : h.graph.statusAt i = some .todo) :
    h.registered[i]? = some ⟨n.project, n.environment.getD .empty⟩ := by
  have hproject := ha.projects i
  have henvironment := ha.environments i hi
  rw [projectAt?, hn] at hproject
  rw [environmentAt?, hn] at henvironment
  -- A position the graph knows was registered in the history, with this environment.
  cases hregistered : h.registered[i]? with
  | none =>
    rw [hregistered] at hproject
    cases hproject
  | some request =>
    rw [hregistered, Option.map_some, Option.map_some, Option.some.injEq] at hproject
    rw [hregistered, Option.map_some, Option.map_some, Option.join_some] at henvironment
    rw [henvironment, hproject, Option.getD_some]

/-- A graph agrees with its history after one more project is handed out. -/
private theorem Agrees.takeNext {i : Nat} {n : ProjectNode} (ha : h.Agrees)
    (hn : h.graph.nodes[i]? = some n) (hready : h.graph.Ready i) :
    (h.record .takeNext (.handedOut ⟨n.project, n.environment.getD .empty⟩)
      (h.graph.handOut i)).Agrees := by
  have hlt := lt_length_of_statusAt hready.1
  have hprojects := projectAt?_eq_of_shape (shape_handOut h.graph i)
  have hself := statusAt_handOut_self hlt
  have hregistered : (h.record .takeNext (.handedOut ⟨n.project, n.environment.getD .empty⟩)
      (h.graph.handOut i)).registered = h.registered :=
    (registered_record ..).trans (List.append_nil _)
  have hhandedOut : (h.record .takeNext (.handedOut ⟨n.project, n.environment.getD .empty⟩)
      (h.graph.handOut i)).handedOut =
        h.handedOut ++ [⟨n.project, n.environment.getD .empty⟩] :=
    handedOut_record ..
  refine ⟨ha.sound.handOut hready, fun k => ?_, fun k hk => ?_, fun request hrequest => ?_, ?_,
    fun k p hp hk => ?_⟩
  · rw [hregistered]
    exact (hprojects k).trans (ha.projects k)
  · rw [hregistered]
    obtain ⟨htodo, henvironment⟩ := keepsWaiting_handOut hlt k hk
    exact henvironment.trans (ha.environments k htodo)
  · rw [hregistered]
    rw [hhandedOut, List.mem_append, List.mem_singleton] at hrequest
    rcases hrequest with hrequest | rfl
    · obtain ⟨k, hk, hstarted⟩ := ha.started request hrequest
      have hki : k ≠ i := fun hki => hstarted.ne_todo (hki ▸ hready.1)
      exact ⟨k, hk, (started_congr (statusAt_handOut_of_ne hlt hki)).2 hstarted⟩
    · exact ⟨i, ha.registered_of_todo hn hready.1, .inl hself⟩
  · rw [hhandedOut]
    refine List.pairwise_append.2 ⟨ha.once, List.pairwise_singleton .., ?_⟩
    intro request hrequest b hb
    cases List.mem_singleton.1 hb
    -- Whatever was handed out before has been started, and this project waits.
    obtain ⟨k, hk, hstarted⟩ := ha.started request hrequest
    have hproject : h.graph.projectAt? k = some request.project := by
      rw [ha.projects, hk, Option.map_some]
    rw [← Bool.not_eq_true]
    intro hsame
    rw [ha.sound.distinct k i _ _ hproject (projectAt?_of_getElem? hn) hsame] at hstarted
    exact hstarted.ne_todo hready.1
  · have hki : k ≠ i := by
      rintro rfl
      exact absurd ((ended_iff_of_statusAt hself).1 hk) (by decide)
    exact ha.ended_record ((hprojects k).symm.trans hp)
      ((ended_congr (statusAt_handOut_of_ne hlt hki)).1 hk)

/-- An operation keeps a graph in agreement with its history if it reports at most about what was
handed out and not reported since. -/
theorem Agrees.performs (ha : h.Agrees) (hop : h.graph.Performs op answer g)
    (hreport : ∀ file, op.reportOn? = some file → awaitedReport h file) :
    (h.record op answer g).Agrees := by
  have hsound := ha.sound.performs hop fun file hfile => ha.inFlight (hreport file hfile)
  have hstarted (k : Nat) (hk : h.graph.Started k) : g.Started k := hop.started hk
  -- What a report ends is the project it is about.
  have hreported {file : Path} {i k : Nat} {p : Project} (hfile : op.reportOn? = some file)
      (hanswer : answer = .done) (hi : h.graph.index? file = some i)
      (hp : h.graph.projectAt? k = some p) (hk : k ≠ i → h.graph.Ended k) :
      ∃ file ∈ (h.record op answer g).reported, file.same p.file = true := by
    by_cases hki : k = i
    · obtain ⟨q, hq, hsame⟩ := (ha.sound.index?_eq_some_iff file).1 hi
      rw [← hki, hp, Option.some.injEq] at hq
      refine ⟨file, ?_, by rw [hq, Path.same_comm, hsame]⟩
      rw [reported_record, hanswer]
      simp [reported, hfile]
    · exact ha.ended_record hp (hk hki)
  cases hop with
  | refused =>
    exact ha.change hsound (by cases op <;> rfl) (by cases op <;> rfl) (fun _ => rfl)
      (fun k hk => ⟨hk, rfl⟩) hstarted fun k p hp hk => ha.ended_record hp hk
  | add hunknown => exact ha.add hunknown _
  | @addDependency _ _ i j hi hj htodo hacyclic =>
    have hlt := lt_length_of_index? hj
    exact ha.change hsound rfl rfl (projectAt?_connect _ i hlt) (keepsWaiting_connect _ i hlt)
      hstarted fun k p hp hk => ha.ended_record hp (ended_of_connect htodo hlt hk)
  | nothing hnone =>
    exact ha.change hsound rfl rfl (fun _ => rfl) (fun k hk => ⟨hk, rfl⟩) hstarted
      fun k p hp hk => ha.ended_record hp hk
  | takeNext hn hready hfirst => exact ha.takeNext hn hready
  | @markSucceeded file i hi =>
    exact ha.change hsound rfl rfl (projectAt?_eq_of_shape (shape_succeed h.graph i))
      (keepsWaiting_succeed _ i) hstarted
      fun k p hp hk => hreported rfl rfl hi hp (ended_of_succeed hk)
  | @markFailed file i hi =>
    exact ha.change hsound rfl rfl (projectAt?_eq_of_shape (shape_giveUp h.graph i .failed))
      (keepsWaiting_giveUp _ i rfl) hstarted
      fun k p hp hk => hreported rfl rfl hi hp (ended_of_giveUp hk)

/-- As long as only what was handed out and not reported since is reported about, a graph agrees
with its history. -/
theorem Continues.agrees (hh : Continues awaitedReport start h) : h.Agrees :=
  hh.invariant (P := Agrees)
    (fun h op hreport ha => ha.performs (h.graph.perform_performs op) hreport) agrees_start

/-- As a history goes on, what was started stays started. -/
theorem Continues.started {allowed : History → Path → Prop} {i : Nat}
    (hh : Continues allowed h h') (hi : h.graph.Started i) : h'.graph.Started i :=
  hh.invariant (P := fun h => h.graph.Started i)
    (fun h op _ hi => (h.graph.perform_performs op).started hi) hi

/-- As a history goes on, what rests on something keeps doing so. -/
theorem Continues.restsOn {allowed : History → Path → Prop} {i j : Nat}
    (hh : Continues allowed h h') (hij : h.graph.RestsOn i j) : h'.graph.RestsOn i j :=
  hh.invariant (P := fun h => h.graph.RestsOn i j)
    (fun h op _ hij => Relation.TransGen.mono
      (fun _ _ => (h.graph.perform_performs op).needs) i j hij) hij

end History

open History

/-- As long as only what was handed out and not reported since is reported about, no project is
handed out twice. What is handed out is the first project in the order of registration that waits
and needs only what has succeeded. It goes out as it was registered, with its environment, and all
it rests on, then or later, has succeeded and stays so. -/
theorem handed_out_once_after_dependencies {h : History}
    (hh : Continues awaitedReport start h) :
    (h.handedOut.Pairwise fun a b => a.project.file.same b.project.file = false) ∧
      (h.graph.takeNext = none → ∀ i, ¬ h.graph.Buildable i) ∧
      ∀ request g, h.graph.takeNext = some (request, g) →
        ∃ i, h.registered[i]? = some request ∧ h.graph.projectAt? i = some request.project ∧
          h.graph.Buildable i ∧ (∀ k < i, ¬ h.graph.Buildable k) ∧
          (∀ j, h.graph.RestsOn i j → h.graph.statusAt j = some .succeeded) ∧
          ∀ h', Continues awaitedReport (h.next .takeNext) h' →
            ∀ j, h.graph.RestsOn i j ∨ h'.graph.RestsOn i j →
              h'.graph.statusAt j = some .succeeded := by
  have ha := hh.agrees
  refine ⟨ha.once, fun hnone i hi => ?_, fun request g htake => ?_⟩
  · exact takeNext_eq_none_iff.1 hnone i (ha.sound.ready_iff_buildable.2 hi)
  obtain ⟨i, n, hn, hready, hfirst, rfl, rfl⟩ := takeNext_eq_some_iff.1 htake
  have hbuildable := ha.sound.ready_iff_buildable.1 hready
  have hnext : (h.next .takeNext).graph = h.graph.handOut i := by
    simp only [next, perform, htake]
  have htaken : Continues awaitedReport h (h.next .takeNext) := Continues.refl.quiet rfl
  have hstarted : (h.next .takeNext).graph.Started i := by
    rw [hnext]
    exact .inl (statusAt_handOut_self (lt_length_of_statusAt hready.1))
  refine ⟨i, ha.registered_of_todo hn hready.1, projectAt?_of_getElem? hn,
    hbuildable, fun k hk hk' => hfirst k hk (ha.sound.ready_iff_buildable.2 hk'), ?_, ?_⟩
  · -- What it needs has succeeded, and so has been started, which settles all that is behind.
    intro j hij
    rcases Relation.TransGen.head'_iff.1 hij with ⟨k, hik, hkj⟩
    have hk := hbuildable.2 k hik
    rcases Relation.reflTransGen_iff_eq_or_transGen.1 hkj with rfl | hkj
    · exact hk
    · exact ha.sound.succeeded_of_restsOn (.inr (.inl hk)) hkj
  · -- Later on the project is still one that was started, and such a project rests on successes.
    intro h' hh' j hij
    have hsound := ((hh.trans htaken).trans hh').agrees.sound
    refine hsound.succeeded_of_restsOn (hh'.started hstarted) ?_
    rcases hij with hij | hij
    · exact (htaken.trans hh').restsOn hij
    · exact hij

/-- After its dependency was built, the other project of the two is handed out. -/
theorem handed_out_once_after_dependencies_app_on_lib :
    ∃ h, h = (appOnLib.next .takeNext).next (.markSucceeded ⟨"/lib"⟩) ∧
      Continues awaitedReport start h ∧
      ∃ g, h.graph.takeNext = some (⟨bareProject "/app", .empty⟩, g) ∧
        ∃ i, h.registered[i]? = some ⟨bareProject "/app", .empty⟩ ∧
          ∀ j, h.graph.RestsOn i j → h.graph.statusAt j = some .succeeded := by
  have hawaited : awaitedReport (appOnLib.next .takeNext) ⟨"/lib"⟩ := by
    rw [appOnLib_eq, awaitedReport]
    decide
  have hh : Continues awaitedReport start
      ((appOnLib.next .takeNext).next (.markSucceeded ⟨"/lib"⟩)) := by
    refine ((continues_appOnLib awaitedReport).quiet rfl).next _ fun file hfile => ?_
    cases hfile
    exact hawaited
  have htake : ∃ g, ((appOnLib.next .takeNext).next (.markSucceeded ⟨"/lib"⟩)).graph.takeNext =
      some (⟨bareProject "/app", .empty⟩, g) := by
    rw [appOnLib_eq]
    exact ⟨_, rfl⟩
  obtain ⟨g, htake⟩ := htake
  obtain ⟨i, hi, -, -, -, hsucceeded, -⟩ :=
    (handed_out_once_after_dependencies hh).2.2 _ _ htake
  exact ⟨_, rfl, hh, g, htake, i, hi, hsucceeded⟩

end BuildEngine
