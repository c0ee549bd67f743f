import BuildEngine.Build.Basic
import Mathlib.Data.List.Nodup
import Mathlib.Logic.Relation

/-!
# Visiting targets

The order in which targets are to be built, said without an agenda: targets are visited from left
to right, and a visit builds what a target needs before the target itself (`Site.Visits`). What a
target needs is evaluated on its first visit, with whatever the targets built so far have changed.

A visit leaves what was known and built before (`Progress.Continues`), and every target behind all
that it needs (`Progress.InOrder`). Visits have one outcome (`Site.Visits.unique`).
-/

namespace BuildEngine

open Relation

section

variable {p : Project} {pr pr' pr'' : Progress p} {i j : p.TargetIndex}
  {js : List p.TargetIndex}

namespace Progress

/-- The first target needs the second one, as far as is known. -/
def Needs (pr : Progress p) (i j : p.TargetIndex) : Prop :=
  ∃ needs, pr.needs.lookup i = some needs ∧ j ∈ needs

/-- What a target needs is known, but the target has not been built. -/
def UnderWay (pr : Progress p) (i : p.TargetIndex) : Prop :=
  (pr.needs.lookup i).isSome ∧ i ∉ pr.completed

/-- What is learnt is known. -/
theorem lookup_learn_self (h : pr.needs.lookup i = none) :
    (pr.learn i js).needs.lookup i = some js := by
  simp [learn, h]

/-- What is known of other targets stays as it is. -/
theorem lookup_learn_of_ne (h : j ≠ i) :
    (pr.learn i js).needs.lookup j = pr.needs.lookup j := by
  unfold learn
  split
  · rfl
  · rw [List.lookup_cons, beq_false_of_ne h]

/-- What is known is not learnt again. -/
theorem learn_of_known (h : (pr.needs.lookup i).isSome) : pr.learn i js = pr := by
  simp [learn, h]

/-- To complete a target says nothing new about needs. -/
@[simp]
theorem needs_complete : (pr.complete i).needs = pr.needs :=
  rfl

/-- The target that is completed is the last one. -/
@[simp]
theorem completed_complete : (pr.complete i).completed = pr.completed ++ [i] :=
  rfl

/-! ## What later progress keeps -/

/-- Later progress: what was built and known stays so, and the same targets are under way. -/
structure Continues (pr pr' : Progress p) : Prop where
  completed : pr.completed <+: pr'.completed
  lookup : ∀ {i needs}, pr.needs.lookup i = some needs → pr'.needs.lookup i = some needs
  underWay : ∀ {i}, pr'.UnderWay i ↔ pr.UnderWay i

/-- Progress continues itself. -/
theorem Continues.refl (pr : Progress p) : pr.Continues pr :=
  ⟨List.prefix_rfl, id, Iff.rfl⟩

/-- What continues later progress continues the earlier. -/
theorem Continues.trans (h : pr.Continues pr') (h' : pr'.Continues pr'') : pr.Continues pr'' :=
  ⟨h.completed.trans h'.completed, fun hi => h'.lookup (h.lookup hi),
    h'.underWay.trans h.underWay⟩

/-- What a target is known to need it needs later on. -/
theorem Continues.needs (h : pr.Continues pr') (hij : pr.Needs i j) : pr'.Needs i j := by
  obtain ⟨needs, hi, hj⟩ := hij
  exact ⟨needs, h.lookup hi, hj⟩

/-- What has been built stays built. -/
theorem Continues.mem_completed (h : pr.Continues pr') (hi : i ∈ pr.completed) :
    i ∈ pr'.completed :=
  h.completed.subset hi

/-- A target whose needs are learnt before it has been built is under way. -/
theorem underWay_learn (hi : i ∉ pr.completed) (h : pr.needs.lookup i = none) :
    (pr.learn i js).UnderWay i := by
  simp [UnderWay, lookup_learn_self h, hi]

/-- A target that is learnt of, built together with what it needs, is under way in between only. -/
theorem Continues.of_learn (hi : i ∉ pr.completed) (h : pr.needs.lookup i = none)
    (hneeds : (pr.learn i js).Continues pr') : pr.Continues (pr'.complete i) := by
  refine ⟨?_, ?_, ?_⟩
  · rw [← completed_learn pr i js]
    exact hneeds.completed.trans (List.prefix_append _ _)
  · intro j ns hj
    have hne : j ≠ i := by
      rintro rfl
      rw [h] at hj
      cases hj
    exact hneeds.lookup ((lookup_learn_of_ne hne).trans hj)
  -- The target itself is neither known before nor under way after; for the others both hold as in
  -- between.
  · intro j
    by_cases hj : j = i
    · subst hj
      simp [UnderWay, h]
    · have hcomplete : (pr'.complete i).UnderWay j ↔ pr'.UnderWay j := by
        simp [UnderWay, hj]
      rw [hcomplete, hneeds.underWay, UnderWay, lookup_learn_of_ne hj, completed_learn, UnderWay]

/-! ## Order -/

/-- Every target that has been built stands there once, behind all that it needs. -/
structure InOrder (pr : Progress p) : Prop where
  nodup : pr.completed.Nodup
  known : ∀ {i}, i ∈ pr.completed → (pr.needs.lookup i).isSome
  needs : ∀ {before i behind j}, pr.completed = before ++ i :: behind → pr.Needs i j → j ∈ before

/-- Where nothing has been built all is in order. -/
theorem inOrder_start : (start p).InOrder :=
  ⟨.nil, nofun,
    fun h => absurd h.symm (List.append_ne_nil_of_right_ne_nil _ (List.cons_ne_nil _ _))⟩

/-- Learning the needs of a target that has not been built keeps the order. -/
theorem InOrder.learn (h : pr.InOrder) (hi : i ∉ pr.completed) : (pr.learn i js).InOrder := by
  have hlookup {j : p.TargetIndex} (hj : j ∈ pr.completed) :
      (pr.learn i js).needs.lookup j = pr.needs.lookup j :=
    lookup_learn_of_ne (by rintro rfl; exact hi hj)
  -- A completed target is not `i`, so what is known of it stays.
  refine ⟨?_, ?_, ?_⟩
  · rw [completed_learn]
    exact h.nodup
  · intro j hj
    rw [completed_learn] at hj
    rw [hlookup hj]
    exact h.known hj
  · rintro before j behind k heq ⟨ns, hj, hk⟩
    rw [completed_learn] at heq
    rw [hlookup (heq ▸ List.mem_append_right _ List.mem_cons_self)] at hj
    exact h.needs heq ⟨ns, hj, hk⟩

/-- Completing a target behind all that it needs keeps the order. -/
theorem InOrder.complete (h : pr.InOrder) (hi : pr.UnderWay i)
    (hneeds : ∀ {j}, pr.Needs i j → j ∈ pr.completed) : (pr.complete i).InOrder := by
  refine ⟨?_, ?_, ?_⟩
  · rw [completed_complete, ← List.concat_eq_append]
    exact List.Nodup.concat hi.2 h.nodup
  · intro j hj
    rcases List.mem_append.1 hj with hj | hj
    · exact h.known hj
    · rw [List.mem_singleton.1 hj]
      exact hi.1
  · intro before j behind k heq hk
    rw [completed_complete] at heq
    -- Either the target is the last one, or it was there before.
    rcases List.eq_nil_or_concat behind with rfl | ⟨behind, l, rfl⟩
    · obtain ⟨rfl, hlast⟩ := List.append_inj' heq rfl
      cases hlast
      exact hneeds hk
    · rw [List.concat_eq_append, ← List.cons_append, ← List.append_assoc] at heq
      exact h.needs (List.append_inj_left' heq rfl) hk

/-- What a built target needs, directly or through others, has been built. -/
theorem InOrder.mem_completed (h : pr.InOrder) (hi : i ∈ pr.completed)
    (hij : ReflTransGen pr.Needs i j) : j ∈ pr.completed := by
  induction hij with
  | refl => exact hi
  | tail _ hneeds ih =>
    obtain ⟨before, behind, heq⟩ := List.append_of_mem ih
    rw [heq]
    exact List.mem_append_left _ (h.needs heq hneeds)

end Progress

end

namespace Project

/-- A target that is found by some name is found by its own. -/
theorem findTarget?_name {p : Project} {i : p.TargetIndex} {name : String}
    (h : p.findTarget? name = some i) : p.findTarget? (p.target i).name = some i := by
  unfold findTarget? at h ⊢
  rw [List.findFinIdx?_eq_some_iff] at h ⊢
  simp only [Text.sameFolded, beq_iff_eq] at h ⊢
  refine ⟨rfl, fun j hj heq => h.2 j hj (heq.trans h.1)⟩

end Project

namespace Site

variable {site : Site} {s s₁ s₂ s' : Session} {pr pr₁ pr' : Progress site.project}
  {i j : site.project.TargetIndex} {is js needs : List site.project.TargetIndex}

/-! ## Names -/

/-- What a target needs are the targets that are found by the names. -/
theorem resolveNeeds_snd (t : Target) (names : List String) :
    (site.resolveNeeds s t names).2 = names.filterMap site.project.findTarget? := by
  induction names generalizing s with
  | nil => rfl
  | cons name names ih =>
    rw [resolveNeeds]
    cases h : site.project.findTarget? name with
    | none => rw [ih, List.filterMap_cons_none h]
    | some i => rw [List.filterMap_cons_some h, ← ih]

/-- The targets found by the names come in front, the last one first. -/
theorem enlist_snd (names : List String) :
    (site.enlist s is names).2 = (names.filterMap site.project.findTarget?).reverse ++ is := by
  induction names generalizing s is with
  | nil => rfl
  | cons name names ih =>
    rw [enlist]
    cases h : site.project.findTarget? name with
    | none => rw [ih, List.filterMap_cons_none h]
    | some i => rw [ih, List.filterMap_cons_some h, List.reverse_cons, List.append_assoc]; rfl

/-- What a target needs as things stand, evaluated anew. -/
def currentNeeds (site : Site) (s : Session) (i : site.project.TargetIndex) :
    Built (List site.project.TargetIndex) :=
  site.needsOf s (.start site.project) i

/-- What is needed are the existing targets among those that are named. -/
theorem exists_names_of_currentNeeds (h : site.currentNeeds s i = (s₁, .ok needs)) :
    ∃ names : List String, needs = names.filterMap site.project.findTarget? := by
  unfold currentNeeds needsOf at h
  -- Without `DependsOn` nothing is needed, and otherwise the names that it evaluates to.
  cases hdepends : (site.project.target i).dependsOn with
  | none =>
    rw [hdepends] at h
    cases h
    exact ⟨[], rfl⟩
  | some e =>
    rw [hdepends] at h
    cases hnames : e.evaluateEntries (site.context s) with
    | error err => simp [require, hnames, Progress.start] at h
    | ok names =>
      simp only [require, hnames, Progress.start, List.lookup_nil, resolveNeeds_snd] at h
      cases h
      exact ⟨names, rfl⟩

/-- Targets are visited from left to right. Nothing is done for one that has been built; for any
other one what it needs is evaluated, once and for all, then visited, and then the target runs.
A target that needs itself is come back to when it is known but not built: no rule visits it. -/
inductive Visits (site : Site) :
    Session → Progress site.project → List site.project.TargetIndex →
      Session → Progress site.project → Prop
  | nil {s : Session} {pr : Progress site.project} : Visits site s pr [] s pr
  | built {s s' : Session} {pr pr' : Progress site.project} {i : site.project.TargetIndex}
      {is : List site.project.TargetIndex} :
    i ∈ pr.completed → Visits site s pr is s' pr' → Visits site s pr (i :: is) s' pr'
  | first {s s₁ s₂ s₃ s' : Session} {pr pr₁ pr' : Progress site.project}
      {i : site.project.TargetIndex} {needs is : List site.project.TargetIndex} :
    i ∉ pr.completed → pr.needs.lookup i = none →
      site.currentNeeds s i = (s₁, .ok needs) →
        Visits site s₁ (pr.learn i needs) needs s₂ pr₁ →
          site.runTarget s₂ (site.project.target i) = (s₃, .ok ()) →
            Visits site s₃ (pr₁.complete i) is s' pr' → Visits site s pr (i :: is) s' pr'

/-! ## Outcomes -/

/-- Visits have one outcome. -/
theorem Visits.unique {t : Session} {q : Progress site.project}
    (h : site.Visits s pr is s' pr') (h' : site.Visits s pr is t q) : s' = t ∧ pr' = q := by
  -- On the visits: each rule leaves one choice, as evaluation and running are functions.
  induction h generalizing t q with
  | nil =>
    cases h'
    exact ⟨rfl, rfl⟩
  | built hi _ ih =>
    cases h' with
    | built _ his => exact ih his
    | first hni => exact absurd hi hni
  | first hni _ hneeds _ hrun _ ihneeds ih =>
    cases h' with
    | built hi => exact absurd hi hni
    | first _ _ hneeds' hvisits' hrun' his' =>
      obtain ⟨rfl, hok⟩ := Prod.mk.inj (hneeds.symm.trans hneeds')
      cases hok
      obtain ⟨rfl, rfl⟩ := ihneeds hvisits'
      obtain ⟨rfl, -⟩ := Prod.mk.inj (hrun.symm.trans hrun')
      exact ih his'

/-- Targets are visited in two goes. -/
theorem visits_append :
    site.Visits s pr (is ++ js) s' pr' ↔
      ∃ t q, site.Visits s pr is t q ∧ site.Visits t q js s' pr' := by
  constructor
  -- The visits are cut where the first list ends; the needs of a target are all on one side.
  · intro h
    generalize hks : is ++ js = ks at h
    induction h generalizing is with
    | nil =>
      obtain ⟨rfl, rfl⟩ := List.append_eq_nil_iff.1 hks
      exact ⟨_, _, .nil, .nil⟩
    | @built s s' pr pr' i ks hi hvisits ih =>
      cases is with
      | nil =>
        obtain rfl : js = i :: ks := hks
        exact ⟨s, pr, .nil, .built hi hvisits⟩
      | cons k is =>
        obtain ⟨rfl, htail⟩ := List.cons.inj hks
        obtain ⟨t, q, his, hjs⟩ := ih htail
        exact ⟨t, q, .built hi his, hjs⟩
    | @first s s₁ s₂ s₃ s' pr pr₁ pr' i needs ks hni hnew hneeds hvisits hrun hks' _ ih =>
      cases is with
      | nil =>
        obtain rfl : js = i :: ks := hks
        exact ⟨s, pr, .nil, .first hni hnew hneeds hvisits hrun hks'⟩
      | cons k is =>
        obtain ⟨rfl, htail⟩ := List.cons.inj hks
        obtain ⟨t, q, his, hjs⟩ := ih htail
        exact ⟨t, q, .first hni hnew hneeds hvisits hrun his, hjs⟩
  · rintro ⟨t, q, his, hjs⟩
    induction his with
    | nil => exact hjs
    | built hi _ ih => exact .built hi (ih hjs)
    | first hni hnew hneeds hvisits hrun _ _ ih =>
      exact .first hni hnew hneeds hvisits hrun (ih hjs)

/-- Nothing is done for targets that have been built. -/
theorem visits_of_built (h : ∀ j ∈ js, j ∈ pr.completed) : site.Visits s pr js s pr := by
  induction js with
  | nil => exact .nil
  | cons j js ih =>
    rw [List.forall_mem_cons] at h
    exact .built h.1 (ih h.2)

/-- Nothing is done for targets that have been built. -/
theorem visits_append_of_built (h : ∀ j ∈ js, j ∈ pr.completed) :
    site.Visits s pr (js ++ is) s' pr' ↔ site.Visits s pr is s' pr' := by
  rw [visits_append]
  constructor
  · rintro ⟨t, q, hjs, his⟩
    obtain ⟨rfl, rfl⟩ := hjs.unique (visits_of_built h)
    exact his
  · intro his
    exact ⟨s, pr, visits_of_built h, his⟩

/-! ## What visits keep -/

/-- A visit continues progress. -/
theorem Visits.continues (h : site.Visits s pr is s' pr') : pr.Continues pr' := by
  induction h with
  | nil => exact .refl _
  | built _ _ ih => exact ih
  | first hni hnew _ _ _ _ ihneeds ih =>
    exact (Progress.Continues.of_learn hni hnew ihneeds).trans ih

/-- What is visited has been built then. -/
theorem Visits.mem_completed (h : site.Visits s pr is s' pr') (hi : i ∈ is) :
    i ∈ pr'.completed := by
  induction h with
  | nil => cases hi
  | built hj his ih =>
    rcases List.mem_cons.1 hi with rfl | hi
    · exact his.continues.mem_completed hj
    · exact ih hi
  | first _ _ _ _ _ his _ ih =>
    rcases List.mem_cons.1 hi with rfl | hi
    · exact his.continues.mem_completed (by simp)
    · exact ih hi

/-- No visit comes to a target that is under way. -/
theorem Visits.not_underWay (h : site.Visits s pr (i :: is) s' pr') : ¬ pr.UnderWay i := by
  rintro ⟨hknown, hni⟩
  cases h with
  | built hi => exact hni hi
  | first _ hnew =>
    rw [hnew] at hknown
    cases hknown

/-- After a target has been learnt of and what it needs has been visited, it needs just that. -/
theorem Visits.needs_iff (hnew : pr.needs.lookup i = none)
    (h : site.Visits s (pr.learn i needs) needs s' pr') : pr'.Needs i j ↔ j ∈ needs := by
  have hlookup := h.continues.lookup (Progress.lookup_learn_self hnew)
  simp [Progress.Needs, hlookup]

/-- A visit builds every target behind all that it needs. -/
theorem Visits.inOrder (h : site.Visits s pr is s' pr') (hpr : pr.InOrder) : pr'.InOrder := by
  induction h with
  | nil => exact hpr
  | built _ _ ih => exact ih hpr
  | first hni hnew _ hvisits _ _ ihneeds ih =>
    refine ih ((ihneeds (hpr.learn hni)).complete ?_ fun hj => ?_)
    · exact hvisits.continues.underWay.2 (Progress.underWay_learn hni hnew)
    · exact hvisits.mem_completed ((hvisits.needs_iff hnew).1 hj)

/-- Only what is visited is built, and what that needs, directly or through others. -/
theorem Visits.exists_reflTransGen (h : site.Visits s pr is s' pr') (hj : j ∈ pr'.completed) :
    j ∈ pr.completed ∨ ∃ i ∈ is, ReflTransGen pr'.Needs i j := by
  induction h with
  | nil => exact .inl hj
  | built _ _ ih =>
    rcases ih hj with hj | ⟨i, hi, hij⟩
    · exact .inl hj
    · exact .inr ⟨i, List.mem_cons_of_mem _ hi, hij⟩
  | @first s s₁ s₂ s₃ s' pr pr₁ pr' i needs is hni hnew _ hvisits _ his ihneeds ih =>
    rcases ih hj with hj | ⟨k, hk, hkj⟩
    · rcases List.mem_append.1 hj with hj | hj
      · rcases ihneeds hj with hj | ⟨k, hk, hkj⟩
        · rw [Progress.completed_learn] at hj
          exact .inl hj
        -- What `i` needs was visited before `i` was built, and those needs are known to the end.
        · refine .inr ⟨i, List.mem_cons_self, ?_⟩
          have hkeep {k l : site.project.TargetIndex} (hkl : pr₁.Needs k l) : pr'.Needs k l :=
            his.continues.needs hkl
          exact .head (hkeep ((hvisits.needs_iff hnew).2 hk)) (hkj.lift id fun _ _ => hkeep)
      · rw [List.mem_singleton.1 hj]
        exact .inr ⟨i, List.mem_cons_self, .refl⟩
    · exact .inr ⟨k, List.mem_cons_of_mem _ hk, hkj⟩

/-- Only targets that can be found by a name are built. -/
theorem Visits.exists_name (h : site.Visits s pr is s' pr')
    (hpr : ∀ j ∈ pr.completed, ∃ name, site.project.findTarget? name = some j)
    (his : ∀ j ∈ is, ∃ name, site.project.findTarget? name = some j) :
    ∀ j ∈ pr'.completed, ∃ name, site.project.findTarget? name = some j := by
  -- On the visits: a target is asked for, or is needed by one and so was found by its name.
  induction h with
  | nil => exact hpr
  | built _ _ ih => exact ih hpr (List.forall_mem_cons.1 his).2
  | first _ _ hneeds _ _ _ ihneeds ih =>
    rw [List.forall_mem_cons] at his
    obtain ⟨names, rfl⟩ := exists_names_of_currentNeeds hneeds
    have hfound := ihneeds (by rwa [Progress.completed_learn]) fun j hj => by
      obtain ⟨name, -, hname⟩ := List.mem_filterMap.1 hj
      exact ⟨name, hname⟩
    refine ih (fun j hj => ?_) his.2
    rcases List.mem_append.1 hj with hj | hj
    · exact hfound j hj
    · exact List.mem_singleton.1 hj ▸ his.1

end Site

end BuildEngine
