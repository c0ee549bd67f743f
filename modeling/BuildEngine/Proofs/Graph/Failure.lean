import BuildEngine.Proofs.Graph.History

/-!
# How far a failure goes

As long as reports are about projects that are being built, the status of every project is
justified by what it needs (`Justified`): a waiting project needs nothing lost, a project that was
started needs only what has succeeded, and a skipped project needs something lost. These are
statements about single edges. Followed along edges they say that exactly the projects resting on
a failed one are skipped (`Sound.skipped_iff`) and that a started project rests on succeeded ones
only (`Sound.succeeded_of_restsOn`).
-/

namespace BuildEngine

open ProjectGraph

namespace ProjectGraph

open Relation

variable {g g' : ProjectGraph} {i j k : Nat} {s : ProjectStatus}

/-- The project with a number has been handed out, and may have been reported. -/
def Started (g : ProjectGraph) (i : Nat) : Prop :=
  g.statusAt i = some .inFlight ∨ g.statusAt i = some .succeeded ∨ g.statusAt i = some .failed

/-- What the project with a number needs justifies its status. -/
structure Justified (g : ProjectGraph) (i : Nat) : Prop where
  /-- What waits needs nothing that is lost. -/
  todo : g.statusAt i = some .todo → ∀ j, g.Needs i j → ¬ g.Lost j
  /-- What was started needs only what has succeeded. -/
  started : g.Started i → ∀ j, g.Needs i j → g.statusAt j = some .succeeded
  /-- What was skipped needs something lost. -/
  skipped : g.statusAt i = some .skipped → ∃ j, g.Needs i j ∧ g.Lost j

/-- A consistent graph in which every status is justified. -/
structure Sound (g : ProjectGraph) : Prop extends g.Consistent where
  /-- Every status is justified. -/
  justified : ∀ i, g.Justified i

/-- Whether a project has been handed out is told by its status. -/
theorem started_congr (h : g'.statusAt i = g.statusAt i) : g'.Started i ↔ g.Started i := by
  rw [Started, Started, h]

/-- What has been handed out has a place. -/
theorem Started.lt_length (h : g.Started i) : i < g.nodes.length := by
  rcases h with h | h | h <;> exact lt_length_of_statusAt h

/-- What has been handed out does not wait. -/
theorem Started.ne_todo (h : g.Started i) : g.statusAt i ≠ some .todo := by
  rcases h with h | h | h <;> rw [h] <;> simp

/-- What has been handed out was not skipped. -/
theorem Started.ne_skipped (h : g.Started i) : g.statusAt i ≠ some .skipped := by
  rcases h with h | h | h <;> rw [h] <;> simp

/-- Every project waits, was started or is skipped. -/
theorem todo_or_started_or_skipped (hi : i < g.nodes.length) :
    g.statusAt i = some .todo ∨ g.Started i ∨ g.statusAt i = some .skipped := by
  have h : g.statusAt i = some g.nodes[i].status :=
    statusAt_of_getElem? (List.getElem?_eq_getElem hi)
  unfold Started
  rw [h]
  cases g.nodes[i].status <;> simp

/-- Where nothing has begun, every status is justified. -/
theorem Consistent.sound_of_todo (h : g.Consistent) (hg : ∀ n ∈ g.nodes, n.status = .todo) :
    g.Sound := by
  refine ⟨h, fun i => ⟨fun _ j _ hj => ?_, fun hi => ?_, fun hi => ?_⟩⟩
  · rcases hj with hj | hj <;> cases eq_todo_of_statusAt hg hj
  · rcases hi with hi | hi | hi <;> cases eq_todo_of_statusAt hg hi
  · cases eq_todo_of_statusAt hg hi

/-! ## Along edges -/

/-- What a started project rests on has succeeded. -/
theorem Sound.succeeded_of_restsOn (h : g.Sound) (hi : g.Started i) (hij : g.RestsOn i j) :
    g.statusAt j = some .succeeded := by
  induction hij with
  | single hneeds => exact (h.justified i).started hi _ hneeds
  | tail _ hneeds hsucceeded => exact (h.justified _).started (.inr (.inl hsucceeded)) _ hneeds

/-- What needs a lost project is skipped. -/
theorem Sound.skipped_of_needs (h : g.Sound) (hij : g.Needs i j) (hj : g.Lost j) :
    g.statusAt i = some .skipped := by
  rcases todo_or_started_or_skipped hij.lt_length with htodo | hstarted | hskipped
  · exact absurd hj ((h.justified i).todo htodo j hij)
  · exact absurd ((h.justified i).started hstarted j hij) hj.ne_succeeded
  · exact hskipped

/-- Skipped are exactly the projects that rest on a failed one. -/
theorem Sound.skipped_iff (h : g.Sound) (i : Nat) :
    g.statusAt i = some .skipped ↔ ∃ j, g.RestsOn i j ∧ g.statusAt j = some .failed := by
  constructor
  · -- A skipped project needs something lost, which failed or is skipped for the same reason.
    induction i using h.acyclic.induction with
    | hstep i ih =>
      intro hi
      obtain ⟨j, hij, hfailed | hskipped⟩ := (h.justified i).skipped hi
      · exact ⟨j, .single hij, hfailed⟩
      · obtain ⟨k, hjk, hk⟩ := ih j (.single hij) hskipped
        exact ⟨k, .head hij hjk, hk⟩
  · -- From the failed project upwards, whatever needs something lost is skipped.
    rintro ⟨j, hij, hj⟩
    induction hij using TransGen.head_induction_on with
    | single hneeds => exact h.skipped_of_needs hneeds (.inl hj)
    | head hneeds _ ih => exact h.skipped_of_needs hneeds (.inr ih)

/-! ## What keeps every status justified -/

/-- A project whose status and needs stay the same stays justified if what it needs does not stop
to have succeeded or to be lost, and gets lost only if the project does not wait. -/
theorem Justified.congr (h : g.Justified i) (hneeds : g'.Needs = g.Needs)
    (hi : g'.statusAt i = g.statusAt i)
    (hsucceeded : ∀ j, g.Needs i j → g.statusAt j = some .succeeded →
      g'.statusAt j = some .succeeded)
    (hlost : ∀ j, g.Needs i j → g.Lost j → g'.Lost j)
    (hnew : g.statusAt i = some .todo → ∀ j, g.Needs i j → g'.Lost j → g.Lost j) :
    g'.Justified i where
  todo htodo j hij hj := by
    rw [hneeds] at hij
    rw [hi] at htodo
    exact h.todo htodo j hij (hnew htodo j hij hj)
  started hstarted j hij := by
    rw [hneeds] at hij
    exact hsucceeded j hij (h.started ((started_congr hi).1 hstarted) j hij)
  skipped hskipped := by
    rw [hi] at hskipped
    obtain ⟨j, hij, hj⟩ := h.skipped hskipped
    exact ⟨j, hneeds ▸ hij, hlost j hij hj⟩

/-- An empty graph is sound. -/
theorem sound_empty : Sound .empty :=
  consistent_empty.sound_of_todo (by simp [ProjectGraph.empty])

/-- A graph stays sound when a new project is added, which needs nothing. -/
theorem Sound.register (h : g.Sound) {project : Project} (hnew : g.index? project.file = none)
    (environment : Environment) : (g.register project environment).Sound := by
  refine ⟨h.toConsistent.register hnew environment, fun i => ?_⟩
  by_cases hi : i = g.nodes.length
  · -- The new project waits and needs nothing.
    have hstatus : (g.register project environment).statusAt i = some .todo := by
      rw [statusAt_register, if_pos hi]
    refine ⟨fun _ j hij => ?_, fun hstarted => absurd hstatus hstarted.ne_todo, fun hskipped => ?_⟩
    · rw [needs_register] at hij
      exact absurd hi hij.lt_length.ne
    · rw [hstatus] at hskipped
      cases hskipped
  -- For any other project nothing changes: what it needs was registered before.
  · have hold (j : Nat) (hij : g.Needs i j) :
        (g.register project environment).statusAt j = g.statusAt j := by
      rw [statusAt_register, if_neg (h.lt_length_of_needs hij).ne]
    exact (h.justified i).congr (needs_register ..) (by rw [statusAt_register, if_neg hi])
      (fun j hij hj => (hold j hij).trans hj) (fun j hij hj => (lost_congr (hold j hij)).2 hj)
      fun _ j hij hj => (lost_congr (hold j hij)).1 hj

/-- What a ready project needs has succeeded. -/
theorem Sound.succeeded_of_ready (h : g.Sound) (hi : g.Ready i) (hij : g.Needs i j) :
    g.statusAt j = some .succeeded := by
  rcases unfinished_or_succeeded_or_lost (h.lt_length_of_needs hij) with hunf | hsucc | hlost
  · have hj := (h.waitsRightly i hi.1 j).2 ⟨hij, hunf⟩
    rw [hi.2] at hj
    cases hj
  · exact hsucc
  · exact absurd hlost ((h.justified i).todo hi.1 j hij)

/-- An unfinished project that needs only what has succeeded may be built and may succeed. -/
private theorem Sound.justified_of_advance (h : g.Sound) (hi : g.Unfinished i)
    (hready : ∀ j, g.Needs i j → g.statusAt j = some .succeeded) (hneeds : g'.Needs = g.Needs)
    (hself : g'.statusAt i = some .inFlight ∨ g'.statusAt i = some .succeeded)
    (hothers : ∀ k, k ≠ i → g'.statusAt k = g.statusAt k) (k : Nat) : g'.Justified k := by
  have hsucceeded (j : Nat) (hj : g.statusAt j = some .succeeded) :
      g'.statusAt j = some .succeeded := by
    refine (hothers j ?_).trans hj
    rintro rfl
    exact hi.ne_succeeded hj
  -- Nothing is lost or regained, as `i` was unfinished and now is in flight or succeeded.
  have hlost (j : Nat) : g'.Lost j ↔ g.Lost j := by
    by_cases hj : j = i
    · subst hj
      refine iff_of_false ?_ hi.not_lost
      rcases hself with hself | hself
      · exact Unfinished.not_lost (.inr hself)
      · exact fun hlost => hlost.ne_succeeded hself
    · exact lost_congr (hothers j hj)
  -- `i` needs only projects that have succeeded; for the others nothing changes.
  by_cases hk : k = i
  · subst hk
    refine ⟨fun htodo => ?_, fun _ j hkj => ?_, fun hskipped => ?_⟩
    · rcases hself with hself | hself <;> rw [hself] at htodo <;> cases htodo
    · rw [hneeds] at hkj
      exact hsucceeded j (hready j hkj)
    · rcases hself with hself | hself <;> rw [hself] at hskipped <;> cases hskipped
  · exact (h.justified k).congr hneeds (hothers k hk) (fun j _ => hsucceeded j)
      (fun j _ => (hlost j).2) fun _ j _ => (hlost j).1

/-- A graph stays sound when a ready project is handed out. -/
theorem Sound.handOut (h : g.Sound) (hi : g.Ready i) : (g.handOut i).Sound := by
  have hlt := lt_length_of_statusAt hi.1
  exact ⟨h.toConsistent.handOut hi.1,
    h.justified_of_advance (.inl hi.1) (fun j => h.succeeded_of_ready hi)
      (needs_eq_of_shape (shape_handOut g i)) (.inl (statusAt_handOut_self hlt))
      fun k => statusAt_handOut_of_ne hlt⟩

/-- A graph stays sound when a project that is being built succeeds. -/
theorem Sound.succeed (h : g.Sound) (hi : g.statusAt i = some .inFlight) :
    (g.succeed i).Sound := by
  have hself : (g.succeed i).statusAt i = some .succeeded :=
    (statusAt_succeed g i i).trans (statusAt_finish_self (.inr hi) _)
  have hothers (k : Nat) (hk : k ≠ i) : (g.succeed i).statusAt k = g.statusAt k :=
    (statusAt_succeed g i k).trans (statusAt_finish_of_ne hk _)
  exact ⟨h.toConsistent.succeed (lt_length_of_statusAt hi),
    h.justified_of_advance (.inr hi) ((h.justified i).started (.inl hi))
      (needs_eq_of_shape (shape_succeed g i)) (.inr hself) hothers⟩

/-! ## Giving a project up -/

/-- A project is given up rightly: it fails after all it needs has succeeded, or it is skipped
because something it needs is lost. -/
def GivenUpRightly (g : ProjectGraph) (i : Nat) (s : ProjectStatus) : Prop :=
  (s = .failed ∧ ∀ j, g.Needs i j → g.statusAt j = some .succeeded) ∨
    (s = .skipped ∧ ∃ j, g.Needs i j ∧ g.Lost j)

/-- What is given up rightly gets a final status. -/
theorem GivenUpRightly.isFinished (h : g.GivenUpRightly i s) : s.isFinished = true := by
  rcases h with ⟨rfl, -⟩ | ⟨rfl, -⟩ <;> rfl

/-- What has succeeded stays so when another project is given up. -/
private theorem succeeded_giveUp (hi : g.Unfinished i) (hj : g.statusAt j = some .succeeded) :
    (g.giveUp i s).statusAt j = some .succeeded := by
  refine (statusAt_giveUp_of_ne_todo ?_ (by simp [hj])).trans hj
  rintro rfl
  exact hi.ne_succeeded hj

/-- What is lost stays so when another project is given up. -/
private theorem lost_giveUp (hi : g.Unfinished i) (hj : g.Lost j) : (g.giveUp i s).Lost j := by
  have hne : j ≠ i := by
    rintro rfl
    exact hi.not_lost hj
  have htodo : g.statusAt j ≠ some .todo := fun htodo => Unfinished.not_lost (.inl htodo) hj
  exact (lost_congr (statusAt_giveUp_of_ne_todo hne htodo)).2 hj

/-- What is given up rightly is justified. -/
private theorem justified_giveUp_self (hi : g.Unfinished i) (hs : g.GivenUpRightly i s) :
    (g.giveUp i s).Justified i := by
  have hself : (g.giveUp i s).statusAt i = some s := statusAt_giveUp_self hi hs.isFinished
  have hneeds := needs_eq_of_shape (shape_giveUp g i s)
  -- It failed with all it needs succeeded, or it is skipped over something lost.
  rcases hs with ⟨rfl, hall⟩ | ⟨rfl, j, hij, hj⟩
  · refine ⟨fun htodo => ?_, fun _ j hij => ?_, fun hskipped => ?_⟩
    · rw [hself] at htodo
      cases htodo
    · rw [hneeds] at hij
      exact succeeded_giveUp hi (hall j hij)
    · rw [hself] at hskipped
      cases hskipped
  · refine ⟨fun htodo => ?_, fun hstarted => ?_, fun _ => ⟨j, hneeds ▸ hij, lost_giveUp hi hj⟩⟩
    · rw [hself] at htodo
      cases htodo
    · exact absurd hself hstarted.ne_skipped

/-- What is skipped with a project needs that project, or something else that is skipped with
it. -/
private theorem WellShaped.justified_of_cutOff (h : g.WellShaped) (hi : g.Unfinished i)
    (hs : g.GivenUpRightly i s) (hcut : (g.finish i s).CutOff [i] k) :
    (g.giveUp i s).Justified k := by
  have hskipped {k : Nat} (hcut : (g.finish i s).CutOff [i] k) :
      (g.giveUp i s).statusAt k = some .skipped := by
    rw [statusAt_giveUp, if_pos hcut]
  refine ⟨fun htodo => ?_, fun hstarted => absurd (hskipped hcut) hstarted.ne_skipped, fun _ => ?_⟩
  · rw [hskipped hcut] at htodo
    cases htodo
  -- The last edge of the path leads to `i` itself or to a project that is cut off as well.
  · obtain ⟨j, hjk, hj⟩ := hcut.exists_mem_dependentsAt
    rw [dependentsAt_eq_of_shape (shape_finish g i s)] at hjk
    have hkj : (g.giveUp i s).Needs k j := by
      rw [needs_eq_of_shape (shape_giveUp g i s)]
      exact (h.mirrored j k).1 hjk
    refine ⟨j, hkj, ?_⟩
    rcases hj with hj | hj
    · rw [List.mem_singleton.1 hj, Lost, statusAt_giveUp_self hi hs.isFinished]
      rcases hs with ⟨rfl, -⟩ | ⟨rfl, -⟩ <;> simp
    · exact .inr (hskipped hj)

/-- If a project is given up rightly and all others were justified, then all are justified after
the search for what has to be skipped with it. -/
theorem Consistent.sound_giveUp (h : g.Consistent) (hi : g.Unfinished i)
    (hothers : ∀ k, k ≠ i → g.Justified k) (hs : g.GivenUpRightly i s) :
    (g.giveUp i s).Sound := by
  refine ⟨h.giveUp hi.lt_length hs.isFinished, fun k => ?_⟩
  by_cases hki : k = i
  · subst hki
    exact justified_giveUp_self hi hs
  by_cases hcut : (g.finish i s).CutOff [i] k
  · exact h.justified_of_cutOff hi hs hcut
  · refine (hothers k hki).congr (needs_eq_of_shape (shape_giveUp g i s))
      (statusAt_giveUp_of_not_cutOff hki hcut) (fun j _ => succeeded_giveUp hi)
      (fun j _ => lost_giveUp hi) fun htodo j hkj hj => ?_
    -- Nothing that a waiting project needs gets lost, or the search would have found it.
    have hji : j ≠ i := fun hji => hcut (h.cutOff_of_needs hki htodo hkj (.inl hji))
    have hjcut : ¬ (g.finish i s).CutOff [i] j := fun hj =>
      hcut (h.cutOff_of_needs hki htodo hkj (.inr hj))
    exact (lost_congr (statusAt_giveUp_of_not_cutOff hji hjcut)).1 hj

/-- A project that is being built may fail. -/
theorem Sound.giveUp_failed (h : g.Sound) (hi : g.statusAt i = some .inFlight) :
    (g.giveUp i .failed).Sound :=
  h.toConsistent.sound_giveUp (.inr hi) (fun k _ => h.justified k)
    (.inl ⟨rfl, (h.justified i).started (.inl hi)⟩)

/-! ## Connecting projects -/

/-- An edge matters to its own end only. -/
private theorem needs_link_of_ne (hi : i < g.nodes.length) (hk : k ≠ i) (j : Nat) (waits : Bool)
    (m : Nat) : (g.link i j waits).Needs k m ↔ g.Needs k m :=
  (needs_link_iff hi j waits k m).trans (or_iff_left fun h => hk h.1)

/-- A link changes no status, so it leaves everyone justified but perhaps its beginning. -/
private theorem Sound.justified_link_of_ne (h : g.Sound) (hi : i < g.nodes.length) (hk : k ≠ i)
    (j : Nat) (waits : Bool) : (g.link i j waits).Justified k := by
  have hold := h.justified k
  refine ⟨fun htodo m hkm hm => ?_, fun hstarted m hkm => ?_, fun hskipped => ?_⟩
  · rw [statusAt_link] at htodo
    rw [needs_link_of_ne hi hk] at hkm
    exact hold.todo htodo m hkm ((lost_congr (statusAt_link ..)).1 hm)
  · rw [statusAt_link]
    rw [needs_link_of_ne hi hk] at hkm
    exact hold.started ((started_congr (statusAt_link ..)).1 hstarted) m hkm
  · rw [statusAt_link] at hskipped
    obtain ⟨m, hkm, hm⟩ := hold.skipped hskipped
    exact ⟨m, (needs_link_of_ne hi hk j waits m).2 hkm, (lost_congr (statusAt_link ..)).2 hm⟩

/-- The beginning of a link waits, which is justified unless the end is lost. -/
private theorem Sound.justified_link_self (h : g.Sound) (hi : g.statusAt i = some .todo)
    (hj : ¬ g.Lost j) (waits : Bool) : (g.link i j waits).Justified i := by
  have hstatus : (g.link i j waits).statusAt i = some .todo := (statusAt_link ..).trans hi
  refine ⟨fun _ m him hm => ?_, fun hstarted => absurd hstatus hstarted.ne_todo, fun hskipped => ?_⟩
  · rw [lost_congr (statusAt_link ..)] at hm
    rcases (needs_link_iff (lt_length_of_statusAt hi) j waits i m).1 him with him | ⟨-, rfl⟩
    · exact (h.justified i).todo hi m him hm
    · exact hj hm
  · rw [hstatus] at hskipped
    cases hskipped

/-- A waiting project may come to depend on another one at any time. -/
theorem Sound.connect (h : g.Sound) (hi : g.statusAt i = some .todo) (hj : j < g.nodes.length)
    (hacyclic : ¬ ReflTransGen g.Needs j i) : (g.connect i j).Sound := by
  have hlt := lt_length_of_statusAt hi
  have hconsistent := h.toConsistent.connect hlt hj hacyclic
  by_cases hij : g.Needs i j
  · rwa [connect_of_needs hij]
  have hall (waits : Bool) (hlost : ¬ g.Lost j) (k : Nat) : (g.link i j waits).Justified k := by
    by_cases hk : k = i
    · exact hk ▸ h.justified_link_self hi hlost waits
    · exact h.justified_link_of_ne hlt hk j waits
  -- The end of the new edge is unfinished, has succeeded, or is lost.
  rcases unfinished_or_succeeded_or_lost hj with hunf | hsucc | hlost
  · rw [connect_of_unfinished hij hunf] at hconsistent ⊢
    exact ⟨hconsistent, hall true hunf.not_lost⟩
  · rw [connect_of_succeeded hij hsucc] at hconsistent ⊢
    exact ⟨hconsistent, hall false fun hlost => hlost.ne_succeeded hsucc⟩
  · -- The beginning of the link is given up, as its end is lost.
    rw [connect_of_lost hij hlost]
    have hlink : (g.link i j false).Consistent :=
      h.toConsistent.link hlt hj hacyclic
        (by simpa using fun hunf => Unfinished.not_lost hunf hlost)
    refine hlink.sound_giveUp (.inl ((statusAt_link ..).trans hi))
      (fun k hk => h.justified_link_of_ne hlt hk j false) (.inr ⟨rfl, j, ?_, ?_⟩)
    · exact (needs_link_iff hlt j false i j).2 (.inr ⟨rfl, rfl⟩)
    · exact (lost_congr (statusAt_link ..)).2 hlost

/-! ## Along a history -/

/-- An operation keeps every status justified if it reports at most about what is being built. -/
theorem Sound.performs {op : Operation} {answer : Answer} (h : g.Sound)
    (hop : g.Performs op answer g')
    (hreport : ∀ file, op.reportOn? = some file → g.status? file = some .inFlight) : g'.Sound := by
  have hinFlight {file : Path} {i : Nat} (hfile : op.reportOn? = some file)
      (hi : g.index? file = some i) : g.statusAt i = some .inFlight := by
    have hstatus := hreport file hfile
    rwa [status?, hi, Option.bind_some] at hstatus
  -- One case for each operation; a report comes on a project in flight only.
  cases hop with
  | refused => exact h
  | add hnew => exact h.register hnew _
  | addDependency hi hj htodo hacyclic => exact h.connect htodo (lt_length_of_index? hj) hacyclic
  | nothing _ => exact h
  | takeNext hn hready hfirst => exact h.handOut hready
  | markSucceeded hi => exact h.succeed (hinFlight rfl hi)
  | markFailed hi => exact h.giveUp_failed (hinFlight rfl hi)

end ProjectGraph

open History

/-- As long as only what is being built is reported about, every status is justified. -/
theorem History.Continues.sound {h : History} (hh : Continues inFlightReport start h) :
    h.graph.Sound :=
  hh.invariant (P := fun h => h.graph.Sound)
    (fun h op hreport hsound => hsound.performs (h.graph.perform_performs op) hreport)
    sound_empty

/-- As long as only what is being built is reported about, exactly those projects are skipped that
depend on a failed one, directly or through others. Edges may be added at any time, also to what
has failed. -/
theorem skipped_iff_restsOn_failed {h : History} (hh : Continues inFlightReport start h) (i : Nat) :
    h.graph.statusAt i = some .skipped ↔
      ∃ j, h.graph.RestsOn i j ∧ h.graph.statusAt j = some .failed :=
  hh.sound.skipped_iff i

/-- After one project failed, two are registered, the first one waiting for the second one, and
then the second one comes to depend on what failed. -/
def lateEdge : History :=
  [.add (bareProject "/base") .empty, .takeNext, .markFailed ⟨"/base"⟩,
    .add (bareProject "/app") .empty, .add (bareProject "/lib") .empty,
    .addDependency ⟨"/app"⟩ ⟨"/lib"⟩, .addDependency ⟨"/lib"⟩ ⟨"/base"⟩].foldl next start

/-- The graph of a failed project, one skipped because of it, and one skipped because of that. -/
def lateEdgeGraph : ProjectGraph where
  nodes :=
    [⟨bareProject "/base", none, .failed, [], [], [2]⟩,
      ⟨bareProject "/app", none, .skipped, [2], [2], []⟩,
      ⟨bareProject "/lib", none, .skipped, [], [0], [1]⟩]
  finishedCount := 3
  finished := true

/-- After the operations the graph is this one. -/
private theorem graph_lateEdge : lateEdge.graph = lateEdgeGraph := by
  -- The graphs the history goes through, each reached from the one before.
  let base : ProjectGraph := ⟨[⟨bareProject "/base", none, .inFlight, [], [], []⟩], 0, false⟩
  let failed : ProjectGraph := ⟨[⟨bareProject "/base", none, .failed, [], [], []⟩], 1, true⟩
  let added : ProjectGraph :=
    ⟨[⟨bareProject "/base", none, .failed, [], [], []⟩,
      ⟨bareProject "/app", some .empty, .todo, [], [], []⟩,
      ⟨bareProject "/lib", some .empty, .todo, [], [], []⟩], 1, false⟩
  let connected : ProjectGraph :=
    ⟨[⟨bareProject "/base", none, .failed, [], [], []⟩,
      ⟨bareProject "/app", some .empty, .todo, [2], [2], []⟩,
      ⟨bareProject "/lib", some .empty, .todo, [], [], [1]⟩], 1, false⟩
  have hbase : ((start.next (.add (bareProject "/base") .empty)).next .takeNext).graph = base := rfl
  have hmarked : base.markFailed ⟨"/base"⟩ = .ok failed :=
    markFailed_eq_ok_iff.2 ⟨0, by decide, by decide +kernel⟩
  have hfailed : (base.perform (.markFailed ⟨"/base"⟩)).2 = failed := by
    simp only [perform, hmarked, settle]
  have hadded : ((failed.perform (.add (bareProject "/app") .empty)).2.perform
      (.add (bareProject "/lib") .empty)).2 = added := rfl
  have hconnected : added.addDependency ⟨"/app"⟩ ⟨"/lib"⟩ = .ok connected :=
    addDependency_eq_ok_iff.2 ⟨1, 2, by decide, by decide, rfl,
      not_reflTransGen_needs rfl (by decide), rfl⟩
  have hskipped : connected.addDependency ⟨"/lib"⟩ ⟨"/base"⟩ = .ok lateEdgeGraph :=
    addDependency_eq_ok_iff.2 ⟨2, 0, by decide, by decide, rfl,
      not_reflTransGen_needs rfl (by decide), by decide +kernel⟩
  have hlate : (connected.perform (.addDependency ⟨"/lib"⟩ ⟨"/base"⟩)).2 = lateEdgeGraph := by
    simp only [perform, hskipped, settle]
  have hpair : (added.perform (.addDependency ⟨"/app"⟩ ⟨"/lib"⟩)).2 = connected := by
    simp only [perform, hconnected, settle]
  rw [← hlate, ← hpair, ← hadded, ← hfailed, ← hbase]
  rfl

/-- The only report is about a project that is being built. -/
private theorem continues_lateEdge : Continues inFlightReport start lateEdge := by
  have hfailed : Continues inFlightReport start
      (((start.next (.add (bareProject "/base") .empty)).next .takeNext).next
        (.markFailed ⟨"/base"⟩)) := by
    refine (Continues.refl.quiet rfl |>.quiet rfl).next _ fun file hfile => ?_
    cases hfile
    unfold inFlightReport
    decide
  exact hfailed.quiet rfl |>.quiet rfl |>.quiet rfl |>.quiet rfl

/-- A failure also reaches what depends on the failed project through an edge that is added
late. -/
theorem skipped_iff_restsOn_failed_late_edge :
    Continues inFlightReport start lateEdge ∧ lateEdge.graph.statusAt 1 = some .skipped ∧
      ∃ j, lateEdge.graph.RestsOn 1 j ∧ lateEdge.graph.statusAt j = some .failed := by
  have hskipped : lateEdge.graph.statusAt 1 = some .skipped := by rw [graph_lateEdge]; rfl
  exact ⟨continues_lateEdge, hskipped,
    (skipped_iff_restsOn_failed continues_lateEdge 1).1 hskipped⟩

end BuildEngine
