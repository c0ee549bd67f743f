import BuildEngine.Proofs.Build.Executions
import BuildEngine.Proofs.Build.Reporting
import BuildEngine.Proofs.Build.Turns

/-!
# The first failure ends a build

A build that fails has built some targets one after the other and then broken off in front of or
within one more (`Site.FailsAfter`). The rules keep account of the tasks whose bodies were executed:
those of the targets that were built, and those of the target that was aborted up to the task that
ended the build. No other body has left a trace, and neither the target that the build broke off at
nor any that waits for it counts as built (`Site.first_failure_ends_build`).
-/

namespace BuildEngine

open Relation

namespace Progress

variable {p : Project} {pr : Progress p} {i j k : p.TargetIndex} {needs : List p.TargetIndex}

/-- What is known to be needed is so after more has been learnt. -/
theorem Needs.learn (h : pr.Needs i j) : (pr.learn k needs).Needs i j := by
  obtain ⟨known, hi, hj⟩ := h
  refine ⟨known, ?_, hj⟩
  by_cases hik : i = k
  · subst hik
    rw [learn_of_known (by simp [hi]), hi]
  · rw [lookup_learn_of_ne hik, hi]

end Progress

/-- A target with the tasks of it whose bodies were executed. -/
abbrev Project.Execution (p : Project) := p.TargetIndex × List TaskNode

namespace Site

variable {site : Site} {s s₀ s₁ s₂ s' : Session} {pr pr' : Progress site.project}
  {i j next needed : site.project.TargetIndex}
  {needs asked waiting expanding : List site.project.TargetIndex}
  {runs : List site.project.Execution} {last : Option site.project.Execution} {e : BuildError}
  {requested : List String}

/-! ## Builds on their way -/

/-- A target is called for if it is asked for or known to be needed. -/
def CalledFor (asked : List site.project.TargetIndex) (pr : Progress site.project)
    (i : site.project.TargetIndex) : Prop :=
  i ∈ asked ∨ ∃ j, pr.Needs j i

/-- A build that was asked for some targets goes on as long as nothing goes wrong: what a target
needs is evaluated when the target is called for, and the target is completed when all that it needs
has been built. The executions are those of the completed targets. -/
inductive Proceeds (site : Site) (asked : List site.project.TargetIndex) (s₀ : Session) :
    List site.project.Execution → Session → Progress site.project → Prop
  | start : Proceeds site asked s₀ [] s₀ (.start site.project)
  | learn {runs : List site.project.Execution} {s s' : Session} {pr : Progress site.project}
      {i : site.project.TargetIndex} {needs : List site.project.TargetIndex} :
    Proceeds site asked s₀ runs s pr → CalledFor asked pr i → i ∉ pr.completed →
      site.needsOf s pr i = (s', .ok needs) →
        Proceeds site asked s₀ runs s' (pr.learn i needs)
  | complete {runs : List site.project.Execution} {s s' : Session} {pr : Progress site.project}
      {i : site.project.TargetIndex} {ran : List TaskNode} :
    Proceeds site asked s₀ runs s pr → pr.UnderWay i → (∀ j, pr.Needs i j → j ∈ pr.completed) →
      site.Completes (site.project.target i) s ran s' →
        Proceeds site asked s₀ (runs ++ [(i, ran)]) s' (pr.complete i)

/-- A build breaks off at a target: what the target needs cannot be evaluated, or one that it needs
waits for it, or the target is aborted. -/
inductive BreaksOff (site : Site) (asked : List site.project.TargetIndex) (s : Session)
    (pr : Progress site.project) : site.project.Execution → Session → BuildError → Prop
  | needs {i : site.project.TargetIndex} {s' : Session} {e : BuildError} :
    CalledFor asked pr i → i ∉ pr.completed → site.needsOf s pr i = (s', .error e) →
      BreaksOff site asked s pr (i, []) s' e
  | circular {i j : site.project.TargetIndex} {e : BuildError} :
    pr.UnderWay i → pr.UnderWay j → pr.Needs i j →
      e = .circular (site.project.target j).name (site.project.target i).name →
        BreaksOff site asked s pr (i, []) (site.complain s e.message) e
  | aborts {i : site.project.TargetIndex} {ran : List TaskNode} {s' : Session} {e : BuildError} :
    pr.UnderWay i → (∀ j, pr.Needs i j → j ∈ pr.completed) →
      site.Aborts (site.project.target i) s ran s' e →
        BreaksOff site asked s pr (i, ran) s' e

/-- A first build fails after executions, the last of which is that of the target it breaks off
at, unless it is not even known which targets are asked for. -/
inductive FailsAfter (site : Site) (s : Session) (requested : List String) :
    List site.project.Execution → Option site.project.Execution →
      Session → Progress site.project → BuildError → Prop
  | names {s' : Session} {e : BuildError} :
    site.targetNames s requested = (s', .error e) →
      FailsAfter site s requested [] none s' (.start site.project) e
  | target {names : List String} {s₁ s₂ s' : Session} {runs : List site.project.Execution}
      {last : site.project.Execution} {pr : Progress site.project} {e : BuildError} :
    site.targetNames s requested = (s₁, .ok names) →
      site.Proceeds (names.filterMap site.project.findTarget?)
          (site.enlist s₁ [] names.reverse).1 runs s₂ pr →
        site.BreaksOff (names.filterMap site.project.findTarget?) s₂ pr last s' e →
          FailsAfter site s requested runs (some last) s' pr e

/-- The completed targets are those of the executions, in order. -/
theorem Proceeds.completed (h : site.Proceeds asked s₀ runs s pr) :
    pr.completed = runs.map Prod.fst := by
  induction h with
  | start => rfl
  | learn _ _ _ _ ih => rw [Progress.completed_learn, ih]
  | complete _ _ _ _ ih => rw [Progress.completed_complete, ih, List.map_append]; rfl

/-- As long as a build goes on, every target stands behind all that it needs. -/
theorem Proceeds.inOrder (h : site.Proceeds asked s₀ runs s pr) : pr.InOrder := by
  induction h with
  | start => exact Progress.inOrder_start
  | learn _ _ hi _ ih => exact ih.learn hi
  | complete _ hi hneeds _ ih => exact ih.complete hi fun hj => hneeds _ hj

/-- What was executed on the way is all that has changed the environment and the workspace. -/
theorem Proceeds.alike_perform (h : site.Proceeds asked s₀ runs s pr) :
    s.Alike (site.perform s₀ (runs.flatMap Prod.snd)) := by
  induction h with
  | start => exact .refl s₀
  | learn _ _ _ hneeds ih => exact (alike_of_needsOf hneeds).trans ih
  | complete _ _ _ hcompletes ih =>
    rw [List.flatMap_append]
    refine alike_perform_append ih ?_
    rw [List.flatMap_singleton]
    exact hcompletes.alike_perform

/-- A build that breaks off leaves what the bodies of its last target leave, but for the log. -/
theorem BreaksOff.alike_perform {last : site.project.Execution}
    (h : site.BreaksOff asked s pr last s' e) : s'.Alike (site.perform s last.2) := by
  cases h with
  | needs _ _ hneeds => exact alike_of_needsOf hneeds
  | circular => exact alike_complain _
  | aborts _ _ haborts => exact haborts.alike_perform

/-! ## Names -/

/-- What is needed was found by a name. -/
theorem exists_name_of_needsOf (h : site.needsOf s pr i = (s₁, .ok needs))
    (hknown : ∀ k, pr.Needs i k → ∃ name, site.project.findTarget? name = some k)
    (hj : j ∈ needs) : ∃ name, site.project.findTarget? name = some j := by
  cases hlookup : pr.needs.lookup i with
  | none =>
    rw [needsOf_of_unknown hlookup] at h
    obtain ⟨names, rfl⟩ := exists_names_of_currentNeeds h
    obtain ⟨name, -, hname⟩ := List.mem_filterMap.1 hj
    exact ⟨name, hname⟩
  | some known =>
    rw [needsOf_of_known hlookup] at h
    cases h
    exact hknown j ⟨_, hlookup, hj⟩

/-- Only targets that can be found by a name are called for or come under way. -/
theorem Proceeds.exists_name (h : site.Proceeds asked s₀ runs s pr)
    (hasked : ∀ i ∈ asked, ∃ name, site.project.findTarget? name = some i) :
    (∀ i, CalledFor asked pr i → ∃ name, site.project.findTarget? name = some i) ∧
      ∀ i, (pr.needs.lookup i).isSome → ∃ name, site.project.findTarget? name = some i := by
  -- On the tasks run so far: a target is called for by the request, or by one whose needs were
  -- learnt.
  induction h with
  | start =>
    refine ⟨?_, nofun⟩
    rintro i (hi | ⟨j, needs, hneeds, -⟩)
    · exact hasked i hi
    · cases hneeds
  | @learn _ _ _ pr k needs _ hk _ hneeds ih =>
    obtain ⟨hcalled, hknown⟩ := ih
    constructor
    · rintro i (hi | ⟨j, ns, hj, hi⟩)
      · exact hasked i hi
      · by_cases hjk : j = k
        · subst hjk
          rw [lookup_learn_of_needsOf hneeds] at hj
          cases hj
          exact exists_name_of_needsOf hneeds (fun l hl => hcalled l (.inr ⟨_, hl⟩)) hi
        · rw [Progress.lookup_learn_of_ne hjk] at hj
          exact hcalled i (.inr ⟨j, ns, hj, hi⟩)
    · intro i hi
      by_cases hik : i = k
      · rw [hik]
        exact hcalled k hk
      · rw [Progress.lookup_learn_of_ne hik] at hi
        exact hknown i hi
  | complete _ _ _ _ ih => exact ih

/-- A build breaks off at a target that has not been built. -/
theorem BreaksOff.not_mem_completed {last : site.project.Execution}
    (h : site.BreaksOff asked s pr last s' e) : last.1 ∉ pr.completed := by
  cases h with
  | needs _ hi => exact hi
  | circular hi => exact hi.2
  | aborts hi => exact hi.2

/-- A build breaks off at a target that was called for, or whose needs were known. -/
theorem BreaksOff.calledFor_or_known {last : site.project.Execution}
    (h : site.BreaksOff asked s pr last s' e) :
    CalledFor asked pr last.1 ∨ (pr.needs.lookup last.1).isSome := by
  cases h with
  | needs hi => exact .inl hi
  | circular hi => exact .inr hi.1
  | aborts hi => exact .inr hi.1

/-- Neither the target that the build breaks off at counts as built nor one that waits for it, and
no built target shares its name. -/
theorem Proceeds.name_not_mem_names {last : site.project.Execution}
    (h : site.Proceeds asked s₀ runs s pr)
    (hasked : ∀ i ∈ asked, ∃ name, site.project.findTarget? name = some i)
    (hlast : site.BreaksOff asked s pr last s' e) (hj : ReflTransGen pr.Needs j last.1) :
    (site.project.target j).name ∉ pr.names := by
  obtain ⟨hcalled, hknown⟩ := h.exists_name hasked
  intro hmem
  -- A built target of that name would be the same one, and all that it needs would be built.
  obtain ⟨k, hk, hname⟩ := List.mem_map.1 hmem
  obtain ⟨_, hk'⟩ := hknown k (h.inOrder.known hk)
  have hfound : ∃ name, site.project.findTarget? name = some j := by
    rcases hj.cases_head with rfl | ⟨l, ⟨needs, hneeds, -⟩, -⟩
    · exact hlast.calledFor_or_known.elim (hcalled _) (hknown _)
    · exact hknown j (by rw [hneeds]; rfl)
  obtain ⟨_, hj'⟩ := hfound
  have heq := Project.findTarget?_name hj'
  rw [← hname, Project.findTarget?_name hk'] at heq
  cases heq
  exact hlast.not_mem_completed (h.inOrder.mem_completed hk hj)

/-! ## Builds that fail -/

/-- When a target comes to the front for the first time, its needs are learnt of, and it is under
way. What was called for before is so still. -/
theorem Proceeds.front (h : site.Proceeds asked s₀ runs s pr) (hi : CalledFor asked pr i)
    (hni : i ∉ pr.completed) (hneeds : site.needsOf s pr i = (s₁, .ok needs)) :
    site.Proceeds asked s₀ runs s₁ (pr.learn i needs) ∧ (pr.learn i needs).UnderWay i ∧
      (∀ j, (pr.learn i needs).Needs i j ↔ j ∈ needs) ∧
        ∀ j, CalledFor asked pr j → CalledFor asked (pr.learn i needs) j := by
  refine ⟨h.learn hi hni hneeds, (underWay_learn_iff hni hneeds).2 (.inl rfl), ?_, ?_⟩
  · intro j
    simp [Progress.Needs, lookup_learn_of_needsOf hneeds]
  · intro j hj
    exact hj.imp_right (Exists.imp fun _ hk => hk.learn)

/-- Work that fails has gone on for a while and then broken off. -/
theorem exists_breaksOff_of_work (s : Session) (pr : Progress site.project)
    (a : Agenda site.project) (runs : List site.project.Execution)
    (hproceeds : site.Proceeds asked s₀ runs s pr) (htracks : a.Tracks pr)
    (hpending : ∀ i ∈ a.pending, CalledFor asked pr i)
    (h : site.work s pr a = (s', pr', .error e)) :
    ∃ runs s₁ last, site.Proceeds asked s₀ runs s₁ pr' ∧
      site.BreaksOff asked s₁ pr' last s' e := by
  -- The cases are those of `work`; from the third on the target in front has not been built.
  fun_induction site.work s pr a generalizing runs with
  | case1 => cases h
  | case2 _ _ _ _ _ _ ih =>
    exact ih runs hproceeds htracks (List.forall_mem_cons.1 hpending).2 h
  | case3 s _ _ _ _ hni s₁ _ hneeds =>
    -- What the target needs cannot be evaluated.
    cases h
    exact ⟨runs, s, _, hproceeds, .needs (hpending _ List.mem_cons_self) hni hneeds⟩
  | case4 _ _ _ _ _ hni s₁ _ hneeds needed hfind hcyclic reason =>
    -- The target needs one that waits for it.
    obtain ⟨rfl, rfl, heq⟩ : _ ∧ _ ∧ reason = e := by simpa using h
    obtain ⟨hlearnt, hunderWay, hknown, -⟩ :=
      hproceeds.front (hpending _ List.mem_cons_self) hni hneeds
    subst heq
    refine ⟨runs, s₁, _, hlearnt, .circular hunderWay ?_ ?_ rfl⟩
    · rwa [underWay_learn_iff hni hneeds, htracks needed]
    · exact (hknown needed).2 (List.mem_of_find?_eq_some hfind)
  | case5 _ _ next _ _ hni _ _ hneeds needed hfind _ ih =>
    -- The target is put off for one that it needs.
    obtain ⟨hlearnt, -, hknown, hcalled⟩ :=
      hproceeds.front (hpending _ List.mem_cons_self) hni hneeds
    refine ih runs hlearnt (tracks_push htracks hni hneeds) ?_ h
    refine List.forall_mem_cons.2 ⟨.inr ⟨next, ?_⟩, fun i hi => hcalled i (hpending i hi)⟩
    exact (hknown needed).2 (List.mem_of_find?_eq_some hfind)
  | case6 _ _ _ _ _ hni s₁ _ hneeds hfind _ _ hrun =>
    -- All that the target needs has been built, and the target fails.
    cases h
    obtain ⟨hlearnt, hunderWay, hknown, -⟩ :=
      hproceeds.front (hpending _ List.mem_cons_self) hni hneeds
    obtain ⟨ran, haborts⟩ := runTarget_eq_error_iff.1 hrun
    refine ⟨runs, s₁, _, hlearnt, .aborts hunderWay (fun i hi => ?_) haborts⟩
    rw [Progress.completed_learn]
    simpa using List.find?_eq_none.1 hfind i ((hknown i).1 hi)
  | case7 _ _ _ _ _ hni _ _ hneeds hfind _ hrun ih =>
    -- All that the target needs has been built, and now the target is as well.
    obtain ⟨hlearnt, hunderWay, hknown, hcalled⟩ :=
      hproceeds.front (hpending _ List.mem_cons_self) hni hneeds
    obtain ⟨ran, hcompletes⟩ := runTarget_eq_ok_iff.1 hrun
    rw [Agenda.unattach_filter_ne] at ih
    refine ih _ (hlearnt.complete hunderWay (fun i hi => ?_) hcompletes)
      (tracks_run htracks hni hneeds) (fun i hi => ?_) h
    · rw [Progress.completed_learn]
      simpa using List.find?_eq_none.1 hfind i ((hknown i).1 hi)
    · exact hcalled i (hpending i (List.mem_cons_of_mem _ hi))

/-- A first build that fails has executed the bodies of the enabled tasks of the targets it has
built, followed by those of the target it broke off at up to the task that ended the build. These
alone have made the environment and the workspace what they are. Neither that target nor any that
waits for it counts as built. -/
theorem first_failure_ends_build
    (h : site.build s (.start site.project) requested = (s', pr, .error e)) :
    ∃ runs last, site.FailsAfter s requested runs last s' pr e ∧
      pr.completed = runs.map Prod.fst ∧
        s'.Alike (site.perform s (runs.flatMap Prod.snd ++ last.toList.flatMap Prod.snd)) ∧
          ∀ i ran, last = some (i, ran) → ∀ j, ReflTransGen pr.Needs j i →
            (site.project.target j).name ∉ pr.names := by
  have hnames := (site.tells_targetNames s requested).alike
  -- The names asked for cannot be evaluated, or one of the targets is the last to run.
  rw [build] at h
  split at h
  · next s₁ e htargets =>
    cases h
    rw [htargets] at hnames
    exact ⟨[], none, .names htargets, rfl, hnames, fun _ _ heq => by cases heq⟩
  · next s₁ names htargets =>
    rw [htargets] at hnames
    have hasked : ∀ i ∈ names.filterMap site.project.findTarget?,
        ∃ name, site.project.findTarget? name = some i := by
      intro i hi
      obtain ⟨name, -, hname⟩ := List.mem_filterMap.1 hi
      exact ⟨name, hname⟩
    have hpending : ∀ i ∈ (site.enlist s₁ [] names.reverse).2,
        CalledFor (names.filterMap site.project.findTarget?) (.start site.project) i := by
      intro i hi
      rw [enlist_snd, List.filterMap_reverse, List.reverse_reverse, List.append_nil] at hi
      exact .inl hi
    have htracks : Agenda.Tracks ⟨(site.enlist s₁ [] names.reverse).2, []⟩
        (Progress.start site.project) := by
      simp [Agenda.Tracks, not_underWay_start]
    obtain ⟨runs, s₂, last, hproceeds, hlast⟩ :=
      exists_breaksOff_of_work _ _ _ [] .start htracks hpending h
    refine ⟨runs, some last, .target htargets hproceeds hlast, hproceeds.completed, ?_, ?_⟩
    · have halike := hproceeds.alike_perform.trans
        (alike_perform ((site.tells_enlist [] names.reverse).alike.trans hnames) _)
      refine alike_perform_append halike ?_
      simpa using hlast.alike_perform
    · rintro i ran heq j hj
      cases heq
      exact hproceeds.name_not_mem_names hasked hlast hj

/-! ## An example -/

/-- An app that writes an error after its first task, between a library that it needs and a target
that needs it. -/
def brokenApp : Site where
  project := ⟨⟨"/app.keel.toml"⟩, some (.quoted "all"), [], [],
    [⟨"all", none, some (.quoted "app"), none, none, []⟩,
      ⟨"app", none, some (.quoted "lib"), none, none,
        [⟨none, .setProperties [⟨"Phase", .quoted "app", none⟩]⟩, ⟨none, .error (.quoted "broken")⟩,
          ⟨none, .setProperties [⟨"Phase", .quoted "done", none⟩]⟩]⟩,
      ⟨"lib", none, none, none, none,
        [⟨some (.quoted "false"), .error (.quoted "left out")⟩,
          ⟨none, .setProperties [⟨"Library", .quoted "built", none⟩]⟩]⟩]⟩
  compiler := ⟨fun _ w => (.ok "", w)⟩
  runner := ⟨fun _ w => .ended (some 0) [] [] w⟩
  logger := 1

/-- `all` and `app` are put off until `lib` is built, then `app` fails and `all` is never
reached. -/
theorem build_brokenApp : ∃ s' pr,
    brokenApp.build bareSession (.start _) [] = (s', pr, .error (.failed "app")) ∧
      pr.names = ["lib"] ∧ s'.environment.property? "Phase" = some "app" := by
  let all : brokenApp.project.TargetIndex := ⟨0, by decide⟩
  let app : brokenApp.project.TargetIndex := ⟨1, by decide⟩
  let lib : brokenApp.project.TargetIndex := ⟨2, by decide⟩
  let s₁ := (brokenApp.runTarget bareSession (brokenApp.project.target lib)).1
  let s₂ := (brokenApp.runTarget s₁ (brokenApp.project.target app)).1
  have hbuild : brokenApp.build bareSession (.start _) [] =
      (s₂, ⟨[lib], [(lib, []), (app, [lib]), (all, [app])]⟩, .error (.failed "app")) :=
    calc brokenApp.build bareSession (.start _) []
      _ = brokenApp.work bareSession (.start _) ⟨[all], []⟩ := rfl
      _ = brokenApp.work bareSession ⟨[], [(all, [app])]⟩ ⟨[app, all], [all]⟩ :=
        work_of_missing (by decide) rfl rfl (by decide)
      _ = brokenApp.work bareSession ⟨[], [(app, [lib]), (all, [app])]⟩
            ⟨[lib, app, all], [app, all]⟩ :=
        work_of_missing (by decide) rfl rfl (by decide)
      _ = brokenApp.work s₁ ⟨[lib], [(lib, []), (app, [lib]), (all, [app])]⟩
            ⟨[app, all], [app, all]⟩ :=
        work_of_completes (by decide) rfl rfl rfl
      _ = (s₂, ⟨[lib], [(lib, []), (app, [lib]), (all, [app])]⟩, .error (.failed "app")) :=
        work_of_aborts (by decide) rfl rfl rfl
  exact ⟨s₂, _, hbuild, rfl, rfl⟩

/-- The library is built, the app gets as far as its error, and nothing else is executed. -/
theorem first_failure_ends_build_broken_app :
    ∃ s s' pr, brokenApp.build s (.start _) [] = (s', pr, .error (.failed "app")) ∧
      pr.names = ["lib"] ∧
        ∃ runs last, brokenApp.FailsAfter s [] runs last s' pr (.failed "app") ∧
          pr.completed = runs.map Prod.fst ∧
            s'.Alike (brokenApp.perform s (runs.flatMap Prod.snd ++ last.toList.flatMap Prod.snd)) ∧
              s'.environment.property? "Phase" = some "app" := by
  obtain ⟨s', pr, hbuild, hnames, hphase⟩ := build_brokenApp
  obtain ⟨runs, last, hfails, hcompleted, halike, -⟩ := first_failure_ends_build hbuild
  exact ⟨bareSession, s', pr, hbuild, hnames, runs, last, hfails, hcompleted, halike, hphase⟩

end Site

end BuildEngine
