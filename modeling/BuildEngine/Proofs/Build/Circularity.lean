import BuildEngine.Proofs.Build.FirstFailure

/-!
# Targets that need themselves

A build that finds a target needing one which waits for it ends with a circular error. The agenda
may hold a target several times, asked for and needed by others, and only those that wait for one of
their needs are looked at. What tells them apart is their place: a target waits behind nothing but
what it needs, directly or through others (`Progress.Awaits`, `Agenda.Stacked`). So the one in front
closes a cycle whenever it needs one that waits.

On the other hand a build that ends well has put every target behind all that it needs
(`Progress.InOrder`), which no target of a cycle can be. Hence a build ends with a circular error
exactly if there is a cycle behind what is asked for and nothing else went wrong before
(`Site.circular_iff_cycle`).
-/

namespace BuildEngine

open Relation

section

variable {p : Project} {pr : Progress p} {i j k : p.TargetIndex}
  {asked needs pending before behind : List p.TargetIndex}

namespace Progress

/-- All that a built target needs, directly or through others, stands in front of it. -/
theorem InOrder.mem_before (h : pr.InOrder) (heq : pr.completed = before ++ i :: behind)
    (hij : TransGen pr.Needs i j) : j ∈ before := by
  induction hij with
  | single hneeds => exact h.needs heq hneeds
  | tail _ hneeds ih =>
    obtain ⟨front, back, rfl⟩ := List.append_of_mem ih
    rw [List.append_assoc] at heq
    exact List.mem_append_left _ (h.needs heq hneeds)

/-- A built target does not need itself. -/
theorem InOrder.not_transGen_self (h : pr.InOrder) (hi : i ∈ pr.completed) :
    ¬ TransGen pr.Needs i i := by
  intro hcycle
  obtain ⟨before, behind, heq⟩ := List.append_of_mem hi
  have hnodup := h.nodup
  rw [heq, List.nodup_middle, List.nodup_cons] at hnodup
  exact hnodup.1 (List.mem_append_left _ (h.mem_before heq hcycle))

/-- What a target is known to need, directly or through others, it still needs after more has been
learnt. -/
theorem reflTransGen_learn (h : ReflTransGen pr.Needs i j) :
    ReflTransGen (pr.learn k needs).Needs i j :=
  h.lift id fun _ _ => Needs.learn

/-! ## Places on an agenda -/

/-- The target is pending, behind nothing but what it needs, directly or through others. -/
def Awaits (pr : Progress p) (i : p.TargetIndex) (pending : List p.TargetIndex) : Prop :=
  ∃ front behind, pending = front ++ i :: behind ∧ ∀ j ∈ front, ReflTransGen pr.Needs i j

/-- At the front a target stands behind nothing. -/
theorem awaits_self (pr : Progress p) (i : p.TargetIndex) (pending : List p.TargetIndex) :
    pr.Awaits i (i :: pending) :=
  ⟨[], pending, rfl, by simp⟩

/-- A target needs the one in front of all it waits behind. -/
theorem Awaits.reflTransGen (h : pr.Awaits i (k :: pending)) : ReflTransGen pr.Needs i k := by
  obtain ⟨front, behind, heq, hfront⟩ := h
  cases front with
  | nil =>
    cases heq
    exact .refl
  | cons l front =>
    obtain ⟨rfl, -⟩ := List.cons.inj heq
    exact hfront _ List.mem_cons_self

/-- A target goes on waiting when one that it needs is put in front. -/
theorem Awaits.cons (h : pr.Awaits i pending) (hk : ReflTransGen pr.Needs i k) :
    pr.Awaits i (k :: pending) := by
  obtain ⟨front, behind, rfl, hfront⟩ := h
  exact ⟨k :: front, behind, rfl, List.forall_mem_cons.2 ⟨hk, hfront⟩⟩

/-- When another target leaves, the places behind it stay. -/
theorem Awaits.of_cons (h : pr.Awaits i (k :: pending)) (hne : i ≠ k) : pr.Awaits i pending := by
  obtain ⟨front, behind, heq, hfront⟩ := h
  cases front with
  | nil =>
    cases heq
    exact absurd rfl hne
  | cons l front =>
    obtain ⟨-, rfl⟩ := List.cons.inj heq
    exact ⟨front, behind, rfl, (List.forall_mem_cons.1 hfront).2⟩

/-- A target goes on waiting when more is known of needs. -/
theorem Awaits.learn (h : pr.Awaits i pending) : (pr.learn k needs).Awaits i pending := by
  obtain ⟨front, behind, heq, hfront⟩ := h
  exact ⟨front, behind, heq, fun j hj => reflTransGen_learn (hfront j hj)⟩

end Progress

/-- The agenda of a build that was asked for some targets: it holds what of them has not been built,
all on it is needed by them, and what waits for its needs has its place behind these. -/
structure Agenda.Stacked (asked : List p.TargetIndex) (pr : Progress p) (a : Agenda p) : Prop where
  due : ∀ i ∈ asked, i ∈ pr.completed ∨ i ∈ a.pending
  reached : ∀ i ∈ a.pending, ∃ k ∈ asked, ReflTransGen pr.Needs k i
  awaits : ∀ i ∈ a.expanding, i ∉ pr.completed ∧ pr.Awaits i a.pending

/-- The agenda of a build that has just begun holds what it was asked for. -/
theorem Agenda.stacked_start (pr : Progress p) (asked : List p.TargetIndex) :
    Agenda.Stacked asked pr ⟨asked, []⟩ :=
  ⟨fun _ => .inr, fun i hi => ⟨i, hi, .refl⟩, by simp⟩

end

namespace Site

variable {site : Site} {s s₁ s₂ s' : Session} {pr pr' : Progress site.project}
  {a a' : Agenda site.project} {i k next : site.project.TargetIndex}
  {needs asked : List site.project.TargetIndex} {requested : List String} {t u : String}
  {r : Except BuildError Unit}

/-! ## What a turn keeps -/

/-- What is known after a turn. -/
def Turn.progress : site.Turn → Progress site.project
  | .on _ pr _ | .done _ pr _ => pr

/-- What is known of needs was evaluated at some time. -/
def Resolved (site : Site) (pr : Progress site.project) : Prop :=
  ∀ i needs, pr.needs.lookup i = some needs → ∃ s s', site.currentNeeds s i = (s', .ok needs)

/-- What is learnt of needs was evaluated. -/
theorem Resolved.learn (h : site.Resolved pr) (hneeds : site.needsOf s pr i = (s₁, .ok needs)) :
    site.Resolved (pr.learn i needs) := by
  cases hlookup : pr.needs.lookup i with
  | some known => rwa [Progress.learn_of_known (by simp [hlookup])]
  | none =>
    rw [needsOf_of_unknown hlookup] at hneeds
    intro j js hj
    -- What was learnt of `i` is the result of the evaluation; the rest was known before.
    by_cases hji : j = i
    · subst hji
      rw [Progress.lookup_learn_self hlookup] at hj
      cases hj
      exact ⟨s, s₁, hneeds⟩
    · rw [Progress.lookup_learn_of_ne hji] at hj
      exact h j js hj

/-- After a turn all that is known of needs was evaluated. -/
theorem Takes.resolved {turn : site.Turn} (h : site.Takes s pr a turn) (hpr : site.Resolved pr) :
    site.Resolved turn.progress := by
  cases h with
  | finishes | drops _ | unknown _ _ => exact hpr
  | circular _ hneeds | putsOff _ hneeds | fails _ hneeds | builds _ hneeds =>
    exact hpr.learn hneeds

/-- Once its needs have been evaluated, a target that has not been built is under way and needs just
these. -/
theorem underWay_and_needs_iff (hni : next ∉ pr.completed)
    (hneeds : site.needsOf s pr next = (s₁, .ok needs)) :
    (pr.learn next needs).UnderWay next ∧ ∀ j, (pr.learn next needs).Needs next j ↔ j ∈ needs := by
  refine ⟨(underWay_learn_iff hni hneeds).2 (.inl rfl), fun j => ?_⟩
  simp [Progress.Needs, lookup_learn_of_needsOf hneeds]

/-- After a turn what was built stands behind all that it needs. -/
theorem Takes.inOrder {turn : site.Turn} (h : site.Takes s pr a turn) (hpr : pr.InOrder) :
    turn.progress.InOrder := by
  cases h with
  | finishes | drops _ | unknown _ _ => exact hpr
  | circular hni | putsOff hni | fails hni => exact hpr.learn hni
  | builds hni hneeds hbuilt =>
    obtain ⟨hunderWay, hknown⟩ := underWay_and_needs_iff hni hneeds
    refine (hpr.learn hni).complete hunderWay fun hj => ?_
    rw [Progress.completed_learn]
    exact hbuilt _ ((hknown _).1 hj)

/-- A turn keeps what the agenda of a build holds. -/
theorem Takes.stacked (h : site.Takes s pr a (.on s' pr' a')) (ha : a.Stacked asked pr) :
    a'.Stacked asked pr' := by
  -- The target in front leaves the list, is put off behind what it needs, or is built.
  cases h with
  | drops hi =>
    refine ⟨fun k hk => ?_, fun k hk => ha.reached k (List.mem_cons_of_mem _ hk), fun k hk => ?_⟩
    · rcases ha.due k hk with hk | hk
      · exact .inl hk
      · rcases List.mem_cons.1 hk with rfl | hk
        · exact .inl hi
        · exact .inr hk
    · obtain ⟨hnk, hawaits⟩ := ha.awaits k hk
      exact ⟨hnk, hawaits.of_cons (by rintro rfl; exact hnk hi)⟩
  | @putsOff next needed needs waiting expanding _ hni hneeds hfind =>
    have hneeded : (pr.learn next needs).Needs next needed :=
      ((underWay_and_needs_iff hni hneeds).2 needed).2 (List.mem_of_find?_eq_some hfind)
    have hreached : ∀ k ∈ next :: waiting, ∃ l ∈ asked,
        ReflTransGen (pr.learn next needs).Needs l k := fun k hk => by
      obtain ⟨l, hl, hlk⟩ := ha.reached k hk
      exact ⟨l, hl, Progress.reflTransGen_learn hlk⟩
    refine ⟨fun k hk => ?_, List.forall_mem_cons.2 ⟨?_, hreached⟩, List.forall_mem_cons.2 ⟨?_, ?_⟩⟩
    · rw [Progress.completed_learn]
      exact (ha.due k hk).imp_right (List.mem_cons_of_mem _)
    · obtain ⟨l, hl, hnext⟩ := hreached next List.mem_cons_self
      exact ⟨l, hl, hnext.tail hneeded⟩
    · rw [Progress.completed_learn]
      exact ⟨hni, (Progress.awaits_self _ next waiting).cons (.single hneeded)⟩
    · -- What waited for the target in front waits for what that one needs.
      intro k hk
      obtain ⟨hnk, hawaits⟩ := ha.awaits k hk
      rw [Progress.completed_learn]
      exact ⟨hnk, hawaits.learn.cons (hawaits.learn.reflTransGen.tail hneeded)⟩
  | @builds next needs waiting expanding =>
    refine ⟨fun k hk => ?_, fun k hk => ?_, fun k hk => ?_⟩
    · rw [Progress.completed_complete, Progress.completed_learn, List.mem_append,
        List.mem_singleton]
      rcases ha.due k hk with hk | hk
      · exact .inl (.inl hk)
      · exact (List.mem_cons.1 hk).imp_left .inr
    · obtain ⟨l, hl, hlk⟩ := ha.reached k (List.mem_cons_of_mem _ hk)
      exact ⟨l, hl, Progress.reflTransGen_learn hlk⟩
    · obtain ⟨hk, hne⟩ := List.mem_filter.1 hk
      have hne : k ≠ next := by simpa using hne
      obtain ⟨hnk, hawaits⟩ := ha.awaits k hk
      refine ⟨?_, (hawaits.of_cons hne).learn⟩
      simp [hnk, hne]

/-! ## Errors that are not circular -/

/-- What goes wrong with a value is not circular, unless it is what follows on it. -/
private theorem require_ne_circular {α β : Type} {subject : String} {value : Except EvalError α}
    {next : α → Built β} (h : ∀ x, next x ≠ (s', .error (.circular t u))) :
    site.require s subject value next ≠ (s', .error (.circular t u)) := by
  cases value with
  | ok x => exact h x
  | error e =>
    intro heq
    cases heq

/-- Evaluating needs does not find a circle. -/
theorem needsOf_ne_circular : site.needsOf s pr i ≠ (s', .error (.circular t u)) := by
  unfold needsOf
  split
  · intro heq
    cases heq
  · intro heq
    cases heq
  · refine require_ne_circular fun names heq => ?_
    cases heq

/-- A task does not find a circle. -/
theorem Stops.ne_circular {target : Target} {nodes ran : List TaskNode} {e : BuildError}
    (h : site.Stops target s nodes ran s' e) : e ≠ .circular t u := by
  rintro rfl
  obtain ⟨-, hend⟩ := h
  cases hend

/-- Running a target does not find a circle. -/
theorem runTarget_ne_circular {target : Target} :
    site.runTarget s target ≠ (s', .error (.circular t u)) := by
  intro h
  obtain ⟨ran, haborts⟩ := runTarget_eq_error_iff.1 h
  cases haborts with
  | ran _ _ hstops => exact hstops.ne_circular rfl

/-- Reading the names that are asked for does not find a circle. -/
theorem requestedNames_ne_circular (texts : List String) :
    site.requestedNames s texts ≠ (s', .error (.circular t u)) := by
  -- No name of a list fails with a circular error, as no evaluation does.
  induction texts generalizing s with
  | nil =>
    intro heq
    cases heq
  | cons text texts ih =>
    unfold requestedNames
    split
    · intro heq
      cases heq
    · refine require_ne_circular fun names => ?_
      split
      · intro heq
        cases heq
      · next s₁ e hrest =>
        intro heq
        cases heq
        exact ih hrest

/-- Finding out what is asked for does not find a circle among it. -/
theorem targetNames_ne_circular :
    site.targetNames s requested ≠ (s', .error (.circular t u)) := by
  unfold targetNames
  split
  · unfold defaultNames
    split
    · intro heq
      cases heq
    · refine require_ne_circular fun names heq => ?_
      cases heq
  · exact requestedNames_ne_circular requested

/-! ## The last turn -/

/-- A circular error comes from a cycle behind what is asked for. -/
theorem Takes.exists_cycle (h : site.Takes s pr a (.done s' pr' (.error (.circular t u))))
    (ha : a.Stacked asked pr) :
    ∃ i j, (site.project.target i).name = u ∧ (site.project.target j).name = t ∧
      pr'.UnderWay i ∧ pr'.Needs i j ∧ ReflTransGen pr'.Needs j i ∧
        ∃ k ∈ asked, ReflTransGen pr'.Needs k i := by
  -- Only one of the rules that end a build says `circular`.
  cases h with
  | unknown _ hneeds => exact absurd hneeds needsOf_ne_circular
  | fails _ _ _ hrun => exact absurd hrun runTarget_ne_circular
  | @circular next needed needs waiting expanding s₁ hni hneeds hfind hcyclic =>
    obtain ⟨hunderWay, hknown⟩ := underWay_and_needs_iff hni hneeds
    refine ⟨next, needed, rfl, rfl, hunderWay,
      (hknown needed).2 (List.mem_of_find?_eq_some hfind), ?_, ?_⟩
    · -- What is needed stands behind the target in front, and needs it.
      rcases hcyclic with rfl | hexpanding
      · exact .refl
      · exact (ha.awaits needed hexpanding).2.learn.reflTransGen
    · obtain ⟨k, hk, hnext⟩ := ha.reached next List.mem_cons_self
      exact ⟨k, hk, Progress.reflTransGen_learn hnext⟩

/-- When the work ends well, all that is asked for has been built. -/
theorem Takes.mem_completed (h : site.Takes s pr a (.done s' pr' (.ok ())))
    (ha : a.Stacked asked pr) (hi : i ∈ asked) : i ∈ pr'.completed := by
  cases h with
  | finishes => exact (ha.due i hi).resolve_right List.not_mem_nil

/-! ## Builds -/

/-- The targets that are asked for, from left to right. -/
def askedFor (site : Site) (s : Session) (requested : List String) :
    List site.project.TargetIndex :=
  match (site.targetNames s requested).2 with
  | .ok names => names.filterMap site.project.findTarget?
  | .error _ => []

/-- Progress that builds of the project have made, one after the other, however each one ended. -/
inductive Reachable (site : Site) : Progress site.project → Prop
  | start : Reachable site (.start site.project)
  | build {s s' : Session} {pr pr' : Progress site.project} {requested : List String}
      {r : Except BuildError Unit} :
    Reachable site pr → site.build s pr requested = (s', pr', r) → Reachable site pr'

/-- The targets that are asked for come first to last. -/
theorem enlist_reverse_snd (names : List String) :
    (site.enlist s [] names.reverse).2 = names.filterMap site.project.findTarget? := by
  rw [enlist_snd, List.filterMap_reverse, List.reverse_reverse, List.append_nil]

/-- The targets that are asked for are those of the names that are. -/
theorem askedFor_of_targetNames {names : List String}
    (h : site.targetNames s requested = (s₁, .ok names)) :
    site.askedFor s requested = names.filterMap site.project.findTarget? := by
  rw [askedFor, h]

/-- A build fails since it is not known which targets are asked for, or works on these. -/
theorem build_cases (h : site.build s pr requested = (s', pr', r)) :
    (∃ e, site.targetNames s requested = (s', .error e) ∧ pr' = pr ∧ r = .error e) ∨
      ∃ s₁ names, site.targetNames s requested = (s₁, .ok names) ∧
        site.work (site.enlist s₁ [] names.reverse).1 pr ⟨site.askedFor s requested, []⟩ =
          (s', pr', r) := by
  rw [build] at h
  split at h
  · next s₁ e hnames =>
    cases h
    exact .inl ⟨e, hnames, rfl, rfl⟩
  · next s₁ names hnames =>
    refine .inr ⟨s₁, names, hnames, ?_⟩
    rw [askedFor_of_targetNames hnames, ← enlist_reverse_snd (s := s₁)]
    exact h

/-- In front of the turn that ends a build the agenda is stacked. -/
theorem exists_last_turn_of_work
    (h : site.work s pr ⟨asked, []⟩ = (s', pr', r)) (horder : pr.InOrder)
    (hresolved : site.Resolved pr) :
    ∃ s₁ pr₁ a, Agenda.Stacked asked pr₁ a ∧ pr₁.InOrder ∧ site.Resolved pr₁ ∧
      site.Takes s₁ pr₁ a (.done s' pr' r) := by
  obtain ⟨s₁, pr₁, a, ⟨hstacked, horder, hresolved⟩, htakes⟩ := exists_last_turn
    (P := fun _ pr a => Agenda.Stacked asked pr a ∧ pr.InOrder ∧ site.Resolved pr)
    (fun ⟨hstacked, horder, hresolved⟩ htakes =>
      ⟨htakes.stacked hstacked, htakes.inOrder horder, htakes.resolved hresolved⟩)
    ⟨Agenda.stacked_start pr asked, horder, hresolved⟩ h
  exact ⟨s₁, pr₁, a, hstacked, horder, hresolved, htakes⟩

/-- Whatever has been built and known before, targets are in order and their needs evaluated. -/
theorem Reachable.inOrder_and_resolved (h : site.Reachable pr) : pr.InOrder ∧ site.Resolved pr := by
  induction h with
  | start => exact ⟨Progress.inOrder_start, fun i needs hi => by cases hi⟩
  | build _ hbuild ih =>
    rcases build_cases hbuild with ⟨e, -, rfl, -⟩ | ⟨s₁, names, -, hwork⟩
    · exact ih
    · obtain ⟨_, _, _, -, horder, hresolved, htakes⟩ := exists_last_turn_of_work hwork ih.1 ih.2
      exact ⟨htakes.inOrder horder, htakes.resolved hresolved⟩

/-- The work of a build comes to its end. -/
theorem exists_turns_of_build {names : List String}
    (h : site.build s pr requested = (s', pr', r))
    (hnames : site.targetNames s requested = (s₁, .ok names)) :
    ∃ n ≤ names.length + 2 * site.project.targets.length + 1,
      site.turns n (site.enlist s₁ [] names.reverse).1 pr ⟨site.askedFor s requested, []⟩ =
        .done s' pr' r := by
  rcases build_cases h with ⟨e, hfailed, -, -⟩ | ⟨_, _, hnames', hwork⟩
  · cases hnames.symm.trans hfailed
  -- The loop stops within the potential of its first agenda, and every target is untouched at most
  -- once.
  · cases hnames.symm.trans hnames'
    obtain ⟨n, hn, _, _, _, hturns, hwork'⟩ := site.exists_turns_eq_work
      (site.enlist s₁ [] names.reverse).1 pr ⟨site.askedFor s requested, []⟩
    cases hwork'.symm.trans hwork
    refine ⟨n, Nat.le_trans hn ?_, hturns⟩
    have hlength : (site.askedFor s requested).length ≤ names.length := by
      rw [askedFor_of_targetNames hnames]
      exact List.length_filterMap_le ..
    have huntouched := Agenda.untouched_le ⟨site.askedFor s requested, []⟩ pr
    simp only [Agenda.potential]
    omega

/-- A build that is circular has come upon a target that needs one which needs it. -/
theorem exists_cycle_of_build (hpr : site.Reachable pr)
    (h : site.build s pr requested = (s', pr', .error (.circular t u))) :
    ∃ i j, (site.project.target i).name = u ∧ (site.project.target j).name = t ∧
      pr'.UnderWay i ∧ pr'.Needs i j ∧ ReflTransGen pr'.Needs j i ∧
        ∃ k ∈ site.askedFor s requested, ReflTransGen pr'.Needs k i := by
  obtain ⟨horder, hresolved⟩ := hpr.inOrder_and_resolved
  rcases build_cases h with ⟨e, hnames, -, heq⟩ | ⟨s₁, names, -, hwork⟩
  · cases heq
    exact absurd hnames targetNames_ne_circular
  · obtain ⟨_, _, _, hstacked, -, -, htakes⟩ := exists_last_turn_of_work hwork horder hresolved
    exact htakes.exists_cycle hstacked

/-- A build does not end well if there is a cycle behind what is asked for. -/
theorem ne_ok_of_cycle (hpr : site.Reachable pr) (h : site.build s pr requested = (s', pr', r))
    (hk : k ∈ site.askedFor s requested) (hki : ReflTransGen pr'.Needs k i)
    (hcycle : TransGen pr'.Needs i i) : r ≠ .ok () := by
  rintro rfl
  obtain ⟨horder, hresolved⟩ := hpr.inOrder_and_resolved
  rcases build_cases h with ⟨e, -, -, heq⟩ | ⟨s₁, names, -, hwork⟩
  · cases heq
  · obtain ⟨_, _, _, hstacked, horder, -, htakes⟩ :=
      exists_last_turn_of_work hwork horder hresolved
    have horder' : pr'.InOrder := htakes.inOrder horder
    have hi := horder'.mem_completed (htakes.mem_completed hstacked hk) hki
    exact horder'.not_transGen_self hi hcycle

/-- The work of a build always comes to its end, after a number of turns that the names that are
asked for and the targets of the project give. If the build ends with a circular error, then one
target is on its way that needs the other one, which needs the first one, directly or through
others. And it ends so exactly if a target behind what is asked for needs itself, by the needs that
were evaluated, and nothing else went wrong before; so to ask for a target, or to need it, several
times makes no build circular. This holds of a first build, and of one that goes on from earlier
ones. -/
theorem circular_iff_cycle (hpr : site.Reachable pr)
    (h : site.build s pr requested = (s', pr', r)) :
    (∀ s₁ names, site.targetNames s requested = (s₁, .ok names) →
        ∃ n ≤ names.length + 2 * site.project.targets.length + 1,
          site.turns n (site.enlist s₁ [] names.reverse).1 pr ⟨site.askedFor s requested, []⟩ =
            .done s' pr' r) ∧
      (∀ i needs, pr'.needs.lookup i = some needs →
        ∃ s₁ s₂, site.currentNeeds s₁ i = (s₂, .ok needs)) ∧
      (∀ t u, r = .error (.circular t u) →
        ∃ i j, (site.project.target i).name = u ∧ (site.project.target j).name = t ∧
          pr'.UnderWay i ∧ pr'.Needs i j ∧ ReflTransGen pr'.Needs j i ∧
            ∃ k ∈ site.askedFor s requested, ReflTransGen pr'.Needs k i) ∧
      ((∃ t u, r = .error (.circular t u)) ↔
        (∃ k ∈ site.askedFor s requested, ∃ i, ReflTransGen pr'.Needs k i ∧
          TransGen pr'.Needs i i) ∧
            ∀ e, r = .error e → ∃ t u, e = .circular t u) := by
  refine ⟨fun s₁ names hnames => exists_turns_of_build h hnames,
    (hpr.build h).inOrder_and_resolved.2, ?_, ?_, ?_⟩
  · rintro t u rfl
    exact exists_cycle_of_build hpr h
  -- A circular error is found at an edge that closes a cycle below something asked for.
  · rintro ⟨t, u, rfl⟩
    obtain ⟨i, j, -, -, -, hij, hji, k, hk, hki⟩ := exists_cycle_of_build hpr h
    refine ⟨⟨k, hk, i, hki, .head' hij hji⟩, fun e he => ?_⟩
    cases he
    exact ⟨t, u, rfl⟩
  -- With a cycle below the build cannot succeed, and by `honly` no other error came first.
  · rintro ⟨⟨k, hk, i, hki, hcycle⟩, honly⟩
    have hfailed := ne_ok_of_cycle hpr h hk hki hcycle
    cases r with
    | ok value => exact absurd rfl hfailed
    | error e =>
      obtain ⟨t, u, rfl⟩ := honly e rfl
      exact ⟨t, u, rfl⟩

/-- A project with a library that everything needs, some of it twice, and two targets that need each
other; some of its targets are built by default. -/
def sharedLib (defaults : String) : Site where
  project := ⟨⟨"/app.keel.toml"⟩, some (.quoted defaults), [], [],
    [bareTarget "all" (some (.quoted "lib;a")), bareTarget "a" (some (.quoted "b")),
      bareTarget "b" (some (.quoted "lib;a")), bareTarget "lib" none,
      bareTarget "tools" (some (.quoted "lib;lib")), bareTarget "app" (some (.quoted "lib;tools"))]⟩
  compiler := ⟨fun _ w => (.ok "", w)⟩
  runner := ⟨fun _ w => .ended (some 0) [] [] w⟩
  logger := 1

/-- The build that stops: `a` needs `b`, which needs `a` while `a` is being expanded. -/
theorem build_sharedLib_circular : ∃ s' pr,
    (sharedLib "lib;all;a").build bareSession (.start _) [] =
      (s', pr, .error (.circular "a" "b")) := by
  let site := sharedLib "lib;all;a"
  let all : site.project.TargetIndex := ⟨0, by decide⟩
  let a : site.project.TargetIndex := ⟨1, by decide⟩
  let b : site.project.TargetIndex := ⟨2, by decide⟩
  let lib : site.project.TargetIndex := ⟨3, by decide⟩
  let s₁ := (site.runTarget bareSession (site.project.target lib)).1
  have hbuild : site.build bareSession (.start _) [] = (_, _, .error (.circular "a" "b")) :=
    calc site.build bareSession (.start _) []
      _ = site.work bareSession (.start _) ⟨[lib, all, a], []⟩ := rfl
      _ = site.work s₁ ⟨[lib], [(lib, [])]⟩ ⟨[all, a], []⟩ :=
        work_of_completes (by decide) rfl rfl rfl
      _ = site.work s₁ ⟨[lib], [(all, [lib, a]), (lib, [])]⟩ ⟨[a, all, a], [all]⟩ :=
        work_of_missing (by decide) rfl rfl (by decide)
      _ = site.work s₁ ⟨[lib], [(a, [b]), (all, [lib, a]), (lib, [])]⟩
            ⟨[b, a, all, a], [a, all]⟩ :=
        work_of_missing (by decide) rfl rfl (by decide)
      _ = _ := work_of_circular (by decide) rfl rfl (by decide)
  exact ⟨_, _, hbuild⟩

/-- The build that ends: `lib` is needed twice by `tools`, and by `app` as well. -/
theorem build_sharedLib_ends : ∃ s' pr,
    (sharedLib "lib;app;tools").build bareSession (.start _) [] = (s', pr, .ok ()) ∧
      pr.names = ["lib", "tools", "app"] := by
  let site := sharedLib "lib;app;tools"
  let lib : site.project.TargetIndex := ⟨3, by decide⟩
  let tools : site.project.TargetIndex := ⟨4, by decide⟩
  let app : site.project.TargetIndex := ⟨5, by decide⟩
  let s₁ := (site.runTarget bareSession (site.project.target lib)).1
  let s₂ := (site.runTarget s₁ (site.project.target tools)).1
  let s₃ := (site.runTarget s₂ (site.project.target app)).1
  have hbuild : site.build bareSession (.start _) [] =
      (s₃, ⟨[lib, tools, app], [(tools, [lib, lib]), (app, [lib, tools]), (lib, [])]⟩, .ok ()) :=
    calc site.build bareSession (.start _) []
      _ = site.work bareSession (.start _) ⟨[lib, app, tools], []⟩ := rfl
      _ = site.work s₁ ⟨[lib], [(lib, [])]⟩ ⟨[app, tools], []⟩ :=
        work_of_completes (by decide) rfl rfl rfl
      _ = site.work s₁ ⟨[lib], [(app, [lib, tools]), (lib, [])]⟩ ⟨[tools, app, tools], [app]⟩ :=
        work_of_missing (by decide) rfl rfl (by decide)
      _ = site.work s₂ ⟨[lib, tools], [(tools, [lib, lib]), (app, [lib, tools]), (lib, [])]⟩
            ⟨[app, tools], [app]⟩ :=
        work_of_completes (by decide) rfl rfl rfl
      _ = site.work s₃ ⟨[lib, tools, app], [(tools, [lib, lib]), (app, [lib, tools]), (lib, [])]⟩
            ⟨[tools], []⟩ :=
        work_of_completes (by decide) rfl rfl rfl
      _ = _ := (Takes.drops (by decide)).work_eq
      _ = _ := Takes.finishes.work_eq
  exact ⟨_, _, hbuild, rfl⟩

/-- Of the two targets that need each other, the one that is asked for twice is found to need itself
through the other one. The library is asked for and needed along several paths, as are the tools,
and a build that asks for nothing else ends well. -/
theorem circular_iff_cycle_shared_lib :
    (∃ s s' pr, (sharedLib "lib;all;a").build s (.start _) [] =
        (s', pr, .error (.circular "a" "b")) ∧
      ∃ i j, ((sharedLib "lib;all;a").project.target i).name = "b" ∧
        ((sharedLib "lib;all;a").project.target j).name = "a" ∧ pr.Needs i j ∧
          ReflTransGen pr.Needs j i) ∧
      ∃ s s' pr, (sharedLib "lib;app;tools").build s (.start _) [] = (s', pr, .ok ()) ∧
        pr.names = ["lib", "tools", "app"] ∧
        ¬ ∃ k ∈ (sharedLib "lib;app;tools").askedFor s [], ∃ i, ReflTransGen pr.Needs k i ∧
          TransGen pr.Needs i i := by
  constructor
  · obtain ⟨s', pr, hbuild⟩ := build_sharedLib_circular
    obtain ⟨i, j, hi, hj, -, hij, hji, -⟩ := (circular_iff_cycle .start hbuild).2.2.1 _ _ rfl
    exact ⟨bareSession, s', pr, hbuild, i, j, hi, hj, hij, hji⟩
  · obtain ⟨s', pr, hbuild, hnames⟩ := build_sharedLib_ends
    refine ⟨bareSession, s', pr, hbuild, hnames, fun hcycle => ?_⟩
    obtain ⟨t, u, heq⟩ :=
      (circular_iff_cycle .start hbuild).2.2.2.2 ⟨hcycle, fun e he => by cases he⟩
    cases heq

end Site

end BuildEngine
