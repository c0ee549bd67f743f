import BuildEngine.Proofs.Build.Visiting

/-!
# The agenda follows the visits

A build ends well exactly if the targets that are asked for can be visited, and then it has visited
them (`Site.build_eq_ok_iff`): it built the same targets in the same order and left the same
session.

The agenda keeps the targets that are under way among those that wait for their needs
(`Agenda.Tracks`). Work finishes the targets on the agenda one after the other (`Site.Finishes`): a
target that is under way takes the visit of its needs up again, in which those that have been built
by now do no harm; any other target is visited.
-/

namespace BuildEngine

/-- The targets under way are those that wait for one they need. -/
def Agenda.Tracks {p : Project} (a : Agenda p) (pr : Progress p) : Prop :=
  ∀ i, pr.UnderWay i ↔ i ∈ a.expanding

open Relation

namespace Site

variable {site : Site} {s s₁ s₂ s₃ s' : Session} {pr pr₁ pr' : Progress site.project}
  {i j next needed : site.project.TargetIndex}
  {is needs waiting expanding : List site.project.TargetIndex}

/-! ## Needs -/

/-- What is known of needs is not evaluated again. -/
theorem needsOf_of_known (h : pr.needs.lookup i = some needs) :
    site.needsOf s pr i = (s, .ok needs) := by
  rw [needsOf, h]

/-- What is not known of needs is evaluated as things stand. -/
theorem needsOf_of_unknown (h : pr.needs.lookup i = none) :
    site.needsOf s pr i = site.currentNeeds s i := by
  rw [currentNeeds, needsOf, needsOf, h]
  rfl

/-- After its needs have been evaluated, a target is known to need just these. -/
theorem lookup_learn_of_needsOf (h : site.needsOf s pr i = (s₁, .ok needs)) :
    (pr.learn i needs).needs.lookup i = some needs := by
  cases hknown : pr.needs.lookup i with
  | none => exact Progress.lookup_learn_self hknown
  | some known =>
    rw [needsOf_of_known hknown] at h
    cases h
    rw [Progress.learn_of_known (by simp [hknown]), hknown]

/-- Needs one of which is missing are visited by visiting that one and then all of them again. -/
theorem visits_iff_of_find? (hfind : (needs.find? fun i => i ∉ pr.completed) = some j) :
    site.Visits s pr needs s' pr' ↔
      ∃ t q, site.Visits s pr [j] t q ∧ site.Visits t q needs s' pr' := by
  obtain ⟨-, before, behind, rfl, hbefore⟩ := List.find?_eq_some_iff_append.1 hfind
  have hbuilt : ∀ i ∈ before, i ∈ pr.completed := by simpa using hbefore
  rw [visits_append_of_built hbuilt, ← List.singleton_append, visits_append]
  refine exists_congr fun t => exists_congr fun q => and_congr_right fun hj => ?_
  -- What was built before, and what was missing, is passed over the second time.
  rw [← List.append_assoc, visits_append_of_built]
  intro i hi
  rcases List.mem_append.1 hi with hi | hi
  · exact hj.continues.mem_completed (hbuilt i hi)
  · exact hj.mem_completed hi

/-! ## Finishing -/

/-- Targets are finished one after the other: visited, or taken up again if under way. -/
inductive Finishes (site : Site) :
    Session → Progress site.project → List site.project.TargetIndex →
      Session → Progress site.project → Prop
  | nil {s : Session} {pr : Progress site.project} : Finishes site s pr [] s pr
  | visit {s s₁ s' : Session} {pr pr₁ pr' : Progress site.project}
      {i : site.project.TargetIndex} {is : List site.project.TargetIndex} :
    site.Visits s pr [i] s₁ pr₁ → Finishes site s₁ pr₁ is s' pr' →
      Finishes site s pr (i :: is) s' pr'
  | resume {s s₁ s₂ s' : Session} {pr pr₁ pr' : Progress site.project}
      {i : site.project.TargetIndex} {needs is : List site.project.TargetIndex} :
    i ∉ pr.completed → pr.needs.lookup i = some needs → site.Visits s pr needs s₁ pr₁ →
      site.runTarget s₁ (site.project.target i) = (s₂, .ok ()) →
        Finishes site s₂ (pr₁.complete i) is s' pr' → Finishes site s pr (i :: is) s' pr'

/-- To finish nothing changes nothing. -/
theorem finishes_nil_iff : site.Finishes s pr [] s' pr' ↔ s = s' ∧ pr = pr' := by
  constructor
  · rintro ⟨⟩
    exact ⟨rfl, rfl⟩
  · rintro ⟨rfl, rfl⟩
    exact .nil

/-- A target that is not under way is finished by a visit. -/
theorem finishes_cons_of_not_underWay (h : ¬ pr.UnderWay i) :
    site.Finishes s pr (i :: is) s' pr' ↔
      ∃ t q, site.Visits s pr [i] t q ∧ site.Finishes t q is s' pr' := by
  constructor
  · rintro (_ | ⟨hi, his⟩ | ⟨hni, hknown, -⟩)
    · exact ⟨_, _, hi, his⟩
    · exact absurd ⟨by simp [hknown], hni⟩ h
  · rintro ⟨t, q, hi, his⟩
    exact .visit hi his

/-- A target that has been built is finished already. -/
theorem finishes_cons_of_built (h : i ∈ pr.completed) :
    site.Finishes s pr (i :: is) s' pr' ↔ site.Finishes s pr is s' pr' := by
  have hvisits : site.Visits s pr [i] s pr := .built h .nil
  rw [finishes_cons_of_not_underWay fun hi => hi.2 h]
  constructor
  · rintro ⟨t, q, hi, his⟩
    obtain ⟨rfl, rfl⟩ := hvisits.unique hi
    exact his
  · exact fun his => ⟨s, pr, hvisits, his⟩

/-- A target that has not been built is finished when its needs have been visited and it has run. -/
theorem finishes_cons_iff (hni : i ∉ pr.completed)
    (hneeds : site.needsOf s pr i = (s₁, .ok needs)) :
    site.Finishes s pr (i :: is) s' pr' ↔
      ∃ s₂ pr₁ s₃, site.Visits s₁ (pr.learn i needs) needs s₂ pr₁ ∧
        site.runTarget s₂ (site.project.target i) = (s₃, .ok ()) ∧
          site.Finishes s₃ (pr₁.complete i) is s' pr' := by
  -- The needs were evaluated before or are now, which decides between the two rules for a first
  -- visit.
  cases h : pr.needs.lookup i with
  | none =>
    rw [finishes_cons_of_not_underWay (by simp [Progress.UnderWay, h])]
    rw [needsOf_of_unknown h] at hneeds
    constructor
    · rintro ⟨t, q, _ | ⟨hi, -⟩ | ⟨-, -, hneeds', hvisits, hrun, ⟨⟩⟩, his⟩
      · exact absurd hi hni
      · cases hneeds.symm.trans hneeds'
        exact ⟨_, _, _, hvisits, hrun, his⟩
    · rintro ⟨s₂, pr₁, s₃, hvisits, hrun, his⟩
      exact ⟨s₃, _, .first hni h hneeds hvisits hrun .nil, his⟩
  | some known =>
    rw [needsOf_of_known h] at hneeds
    cases hneeds
    rw [Progress.learn_of_known (by simp [h])]
    constructor
    · rintro (_ | ⟨hi, -⟩ | ⟨-, hknown, hvisits, hrun, his⟩)
      · exact absurd ⟨by simp [h], hni⟩ hi.not_underWay
      · cases h.symm.trans hknown
        exact ⟨_, _, _, hvisits, hrun, his⟩
    · rintro ⟨s₂, pr₁, s₃, hvisits, hrun, his⟩
      exact .resume hni h hvisits hrun his

/-- Before a target is finished what it needs has been evaluated. -/
theorem exists_needsOf_of_finishes (hni : i ∉ pr.completed)
    (h : site.Finishes s pr (i :: is) s' pr') :
    ∃ s₁ needs, site.needsOf s pr i = (s₁, .ok needs) := by
  cases h with
  | visit hi =>
    cases hi with
    | built hi => exact absurd hi hni
    | first _ hnew hneeds => exact ⟨_, _, (needsOf_of_unknown hnew).trans hneeds⟩
  | resume _ hknown => exact ⟨_, _, needsOf_of_known hknown⟩

/-- Where nothing is under way, finishing targets is visiting them. -/
theorem finishes_iff_visits (h : ∀ i, ¬ pr.UnderWay i) :
    site.Finishes s pr is s' pr' ↔ site.Visits s pr is s' pr' := by
  induction is generalizing s pr with
  | nil =>
    -- On the list of targets: with none under way each of them is visited whole before the next.
    rw [finishes_nil_iff]
    constructor
    · rintro ⟨rfl, rfl⟩
      exact .nil
    · rintro ⟨⟩
      exact ⟨rfl, rfl⟩
  | cons i is ih =>
    rw [finishes_cons_of_not_underWay (h i), ← List.singleton_append (l := is), visits_append]
    refine exists_congr fun t => exists_congr fun q => and_congr_right fun hi => ih fun j => ?_
    exact mt hi.continues.underWay.1 (h j)

/-! ## Work -/

/-- To put off a target for one that it misses changes nothing: the target takes up its needs again,
and the missing one is among those that have been built then. -/
theorem finishes_push_iff (hni : next ∉ pr.completed)
    (hneeds : site.needsOf s pr next = (s₁, .ok needs))
    (hfind : (needs.find? fun i => i ∉ pr.completed) = some needed)
    (hfresh : ¬ (pr.learn next needs).UnderWay needed) :
    site.Finishes s₁ (pr.learn next needs) (needed :: next :: waiting) s' pr' ↔
      site.Finishes s pr (next :: waiting) s' pr' := by
  have hlookup := lookup_learn_of_needsOf hneeds
  have hunderWay : (pr.learn next needs).UnderWay next := by
    simp [Progress.UnderWay, hlookup, hni]
  rw [finishes_cons_iff hni hneeds, finishes_cons_of_not_underWay hfresh]
  rw [← Progress.completed_learn pr next needs] at hfind
  simp only [visits_iff_of_find? hfind]
  -- When `next` is come back to, its needs are known and are not evaluated again.
  have hresume {t : Session} {q : Progress site.project}
      (hneeded : site.Visits s₁ (pr.learn next needs) [needed] t q) :
      site.Finishes t q (next :: waiting) s' pr' ↔
        ∃ s₂ pr₁ s₃, site.Visits t q needs s₂ pr₁ ∧
          site.runTarget s₂ (site.project.target next) = (s₃, .ok ()) ∧
            site.Finishes s₃ (pr₁.complete next) waiting s' pr' := by
    have hknown := hneeded.continues.lookup hlookup
    have hni := (hneeded.continues.underWay.2 hunderWay).2
    rw [finishes_cons_iff hni (needsOf_of_known hknown), Progress.learn_of_known (by simp [hknown])]
  constructor
  · rintro ⟨t, q, hneeded, hnext⟩
    obtain ⟨s₂, pr₁, s₃, hvisits, hrest⟩ := (hresume hneeded).1 hnext
    exact ⟨s₂, pr₁, s₃, ⟨t, q, hneeded, hvisits⟩, hrest⟩
  · rintro ⟨s₂, pr₁, s₃, ⟨t, q, hneeded, hvisits⟩, hrest⟩
    exact ⟨t, q, hneeded, (hresume hneeded).2 ⟨s₂, pr₁, s₃, hvisits, hrest⟩⟩

/-- A target that misses one which is under way is not finished. -/
theorem not_finishes_of_underWay (hni : next ∉ pr.completed)
    (hneeds : site.needsOf s pr next = (s₁, .ok needs))
    (hfind : (needs.find? fun i => i ∉ pr.completed) = some needed)
    (hcyclic : (pr.learn next needs).UnderWay needed) :
    ¬ site.Finishes s pr (next :: waiting) s' pr' := by
  rw [finishes_cons_iff hni hneeds]
  rw [← Progress.completed_learn pr next needs] at hfind
  rintro ⟨s₂, pr₁, s₃, hvisits, -⟩
  obtain ⟨t, q, hneeded, -⟩ := (visits_iff_of_find? hfind).1 hvisits
  exact hneeded.not_underWay hcyclic

/-- Once what it needs is known, the target in front is under way too. -/
theorem underWay_learn_iff (hni : next ∉ pr.completed)
    (hneeds : site.needsOf s pr next = (s₁, .ok needs)) :
    (pr.learn next needs).UnderWay i ↔ i = next ∨ pr.UnderWay i := by
  by_cases h : i = next
  · subst h
    simp [Progress.UnderWay, lookup_learn_of_needsOf hneeds, hni]
  · simp [Progress.UnderWay, Progress.lookup_learn_of_ne h, h]

/-- When a needed target is put in front, the one that waits for it joins those under way. -/
theorem tracks_push (h : Agenda.Tracks ⟨next :: waiting, expanding⟩ pr)
    (hni : next ∉ pr.completed) (hneeds : site.needsOf s pr next = (s₁, .ok needs)) :
    Agenda.Tracks ⟨needed :: next :: waiting, next :: expanding⟩ (pr.learn next needs) := by
  intro i
  rw [underWay_learn_iff hni hneeds, h i, List.mem_cons]

/-- When the target in front runs, it is under way no more. -/
theorem tracks_run (h : Agenda.Tracks ⟨next :: waiting, expanding⟩ pr)
    (hni : next ∉ pr.completed) (hneeds : site.needsOf s pr next = (s₁, .ok needs)) :
    Agenda.Tracks ⟨waiting, expanding.filter (· ≠ next)⟩
      ((pr.learn next needs).complete next) := by
  intro i
  have hcomplete : ((pr.learn next needs).complete next).UnderWay i ↔
      (pr.learn next needs).UnderWay i ∧ i ≠ next := by
    simp [Progress.UnderWay, and_assoc]
  rw [hcomplete, underWay_learn_iff hni hneeds, h i]
  simp only [List.mem_filter, decide_eq_true_eq]
  tauto

/-- Work ends well exactly if what is on its agenda can be finished. -/
theorem work_eq_ok_iff (s : Session) (pr : Progress site.project) (a : Agenda site.project)
    (htracks : a.Tracks pr) :
    site.work s pr a = (s', pr', .ok ()) ↔ site.Finishes s pr a.pending s' pr' := by
  -- One case for each way `work` goes on, and the same measure as `work`.
  match a with
  | ⟨[], expanding⟩ =>
    rw [work, finishes_nil_iff]
    simp
  | ⟨next :: waiting, expanding⟩ =>
    by_cases hi : next ∈ pr.completed
    · rw [work, if_pos hi, finishes_cons_of_built hi]
      exact work_eq_ok_iff s pr ⟨waiting, expanding⟩ htracks
    · rw [work, if_neg hi]
      split
      · next s₁ e hneeds =>
        refine iff_of_false (by simp) fun h => ?_
        obtain ⟨t, needs, hneeds'⟩ := exists_needsOf_of_finishes hi h
        cases hneeds.symm.trans hneeds'
      · next s₁ needs hneeds =>
        split
        · next needed hfind =>
          have hcyclic : (pr.learn next needs).UnderWay needed ↔
              needed = next ∨ needed ∈ expanding := by
            rw [underWay_learn_iff hi hneeds, htracks needed]
          split
          · next h =>
            exact iff_of_false (by simp)
              (not_finishes_of_underWay hi hneeds hfind (hcyclic.2 h))
          · next h =>
            rw [← finishes_push_iff hi hneeds hfind (mt hcyclic.1 h)]
            exact work_eq_ok_iff s₁ _ _ (tracks_push htracks hi hneeds)
        · next hfind =>
          have hbuilt : ∀ i ∈ needs, i ∈ (pr.learn next needs).completed := by
            simpa using hfind
          have hvisits : site.Visits s₁ _ needs s₁ _ := visits_of_built hbuilt
          rw [finishes_cons_iff hi hneeds]
          split
          · next s₂ e hrun =>
            refine iff_of_false (by simp) ?_
            rintro ⟨t, q, s₃, hvisits', hrun', -⟩
            obtain ⟨rfl, rfl⟩ := hvisits.unique hvisits'
            cases hrun.symm.trans hrun'
          · next s₂ hrun =>
            rw [work_eq_ok_iff s₂ _ _ (tracks_run htracks hi hneeds)]
            constructor
            · exact fun hrest => ⟨s₁, _, s₂, hvisits, hrun, hrest⟩
            · rintro ⟨t, q, s₃, hvisits', hrun', hrest⟩
              obtain ⟨rfl, rfl⟩ := hvisits.unique hvisits'
              cases hrun.symm.trans hrun'
              exact hrest
termination_by (pr.remaining, a.untouched pr, a.pending.length)
decreasing_by
  · exact Agenda.lex_drop hi
  · exact Agenda.lex_push ‹_› ‹_›
  · exact Prod.Lex.left _ _ (Progress.remaining_complete hi)

/-! ## Builds -/

/-- Nothing is under way at the start. -/
theorem not_underWay_start (i : site.project.TargetIndex) :
    ¬ (Progress.start site.project).UnderWay i := by
  simp [Progress.UnderWay, Progress.start]

/-- A first build ends well exactly if the targets that are asked for can be visited from left to
right, and it leaves what the visits leave. -/
theorem build_eq_ok_iff {requested : List String} :
    site.build s (.start site.project) requested = (s', pr', .ok ()) ↔
      ∃ s₁ names, site.targetNames s requested = (s₁, .ok names) ∧
        site.Visits (site.enlist s₁ [] names.reverse).1 (.start site.project)
          (names.filterMap site.project.findTarget?) s' pr' := by
  have htracks (a : List site.project.TargetIndex) :
      Agenda.Tracks ⟨a, []⟩ (Progress.start site.project) := by
    simp [Agenda.Tracks, not_underWay_start]
  rw [build]
  split
  · next s₁ e hnames =>
    refine iff_of_false nofun ?_
    rintro ⟨t, names, hnames', -⟩
    cases hnames.symm.trans hnames'
  · next s₁ names hnames =>
    rw [work_eq_ok_iff _ _ _ (htracks _), finishes_iff_visits not_underWay_start, enlist_snd,
      List.filterMap_reverse, List.reverse_reverse, List.append_nil]
    constructor
    · exact fun hvisits => ⟨s₁, names, hnames, hvisits⟩
    · rintro ⟨t, names', hnames', hvisits⟩
      cases hnames.symm.trans hnames'
      exact hvisits

/-- The names of targets that stand for themselves differ. -/
theorem nodup_names (hnodup : pr.completed.Nodup)
    (hnames : ∀ i ∈ pr.completed, ∃ name, site.project.findTarget? name = some i) :
    pr.names.Nodup := by
  refine List.Nodup.map_on (fun i hi j hj heq => ?_) hnodup
  obtain ⟨name, hi⟩ := hnames i hi
  obtain ⟨name', hj⟩ := hnames j hj
  have hi := Project.findTarget?_name hi
  rw [heq, Project.findTarget?_name hj] at hi
  exact (Option.some.inj hi).symm

/-- A first build that ends well has visited the targets that are asked for from left to right,
which can be done in one way only. It built these and what they need, directly or through others,
each one once and behind all that it needs. -/
theorem built_by_visits {requested : List String}
    (h : site.build s (.start site.project) requested = (s', pr, .ok ())) :
    ∃ s₁ names, site.targetNames s requested = (s₁, .ok names) ∧
      (∀ t q, site.Visits (site.enlist s₁ [] names.reverse).1 (.start site.project)
          (names.filterMap site.project.findTarget?) t q ↔ t = s' ∧ q = pr) ∧
        pr.completed.Nodup ∧ pr.names.Nodup ∧
          (∀ i, i ∈ pr.completed ↔
            ∃ r ∈ names.filterMap site.project.findTarget?, ReflTransGen pr.Needs r i) ∧
            ∀ before i behind, pr.completed = before ++ i :: behind →
              ∀ j, pr.Needs i j → j ∈ before := by
  obtain ⟨s₁, names, hnames, hvisits⟩ := build_eq_ok_iff.1 h
  have horder := hvisits.inOrder Progress.inOrder_start
  -- Uniqueness, the order and the names follow from the visits; what is built is what is reachable,
  -- which takes both directions.
  refine ⟨s₁, names, hnames, fun t q => ⟨fun h => ?_, ?_⟩, horder.nodup, ?_, fun i => ⟨?_, ?_⟩, ?_⟩
  · obtain ⟨rfl, rfl⟩ := hvisits.unique h
    exact ⟨rfl, rfl⟩
  · rintro ⟨rfl, rfl⟩
    exact hvisits
  · refine nodup_names horder.nodup (hvisits.exists_name nofun fun i hi => ?_)
    obtain ⟨name, -, hname⟩ := List.mem_filterMap.1 hi
    exact ⟨name, hname⟩
  · intro hi
    rcases hvisits.exists_reflTransGen hi with hi | hreach
    · cases hi
    · exact hreach
  · rintro ⟨r, hr, hreach⟩
    exact horder.mem_completed (hvisits.mem_completed hr) hreach
  · intro before i behind heq j hj
    exact horder.needs heq hj

/-- A session in which there are no files and nothing was said. -/
def bareSession : Session :=
  ⟨.empty, ⟨.memory (.empty ⟨"/"⟩ []), false, []⟩, .empty⟩

/-- A target without tasks. -/
def bareTarget (name : String) (dependsOn : Option Expr) : Target :=
  ⟨name, none, dependsOn, none, none, []⟩

/-- An app that is asked for twice, and needs a library whose name is taken twice and a target that
there is not. -/
def appAndLib : Site where
  project := ⟨⟨"/app.keel.toml"⟩, some (.quoted "app;App"), [], [],
    [bareTarget "app" (some (.quoted "lib;none")), bareTarget "lib" none, bareTarget "LIB" none]⟩
  compiler := ⟨fun _ w => (.ok "", w)⟩
  runner := ⟨fun _ w => .ended (some 0) [] [] w⟩
  logger := 1

/-- The first library is built in front of the app, and nothing twice. -/
theorem built_by_visits_app_and_lib :
    ∃ s s' pr, appAndLib.build s (.start _) [] = (s', pr, .ok ()) ∧ pr.names = ["lib", "app"] ∧
      ∀ i, i ∈ pr.completed ↔
        ∃ r ∈ ["app", "App"].filterMap appAndLib.project.findTarget?,
          ReflTransGen pr.Needs r i := by
  have hnames : appAndLib.targetNames bareSession [] = (bareSession, .ok ["app", "App"]) := by
    decide
  have hvisits : appAndLib.Visits (appAndLib.enlist bareSession [] ["App", "app"]).1 (.start _)
      (["app", "App"].filterMap appAndLib.project.findTarget?) _ _ :=
    -- `lib` is visited inside of `app`, and the second spelling of `app` finds it built.
    .first (i := ⟨0, by decide⟩) (by decide) rfl rfl
      (.first (i := ⟨1, by decide⟩) (by decide) rfl rfl .nil rfl .nil) rfl
      (.built (by decide) .nil)
  have hbuild := build_eq_ok_iff.2 ⟨bareSession, _, hnames, hvisits⟩
  obtain ⟨t, names, hnames', -, -, -, hbuilt, -⟩ := built_by_visits hbuild
  cases hnames.symm.trans hnames'
  exact ⟨bareSession, _, _, hbuild, by decide, hbuilt⟩

end Site

end BuildEngine
