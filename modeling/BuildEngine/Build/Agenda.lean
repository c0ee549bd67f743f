import BuildEngine.Build.Target
import BuildEngine.Counting

/-!
# Order of targets

Targets are built from an agenda whose next target is in front. A target that still needs another
one puts that in front of itself; when everything it needs has been built, it runs and leaves. A
target that is needed while what it needs is being built itself depends on itself, which ends the
build.

What a target needs is evaluated once, when it first comes to the front.
-/

namespace BuildEngine

/-- Places are compared by deciding whether they are equal. -/
instance (p : Project) : LawfulBEq p.TargetIndex :=
  instLawfulBEq

/-- What is known of the targets of a project. -/
structure Progress (p : Project) where
  /-- The targets that have been built, in the order they were completed. -/
  completed : List p.TargetIndex
  /-- The targets whose needs are known, with the targets that they need. -/
  needs : List (p.TargetIndex × List p.TargetIndex)
deriving DecidableEq, Repr

namespace Progress

/-- Nothing has been built. -/
def start (p : Project) : Progress p :=
  ⟨[], []⟩

/-- The names of the targets that have been built. -/
def names {p : Project} (pr : Progress p) : List String :=
  pr.completed.map fun i => (p.target i).name

/-- Notes what a target needs, unless that is known already. -/
def learn {p : Project} (pr : Progress p) (i : p.TargetIndex) (needs : List p.TargetIndex) :
    Progress p :=
  if (pr.needs.lookup i).isSome then pr else { pr with needs := (i, needs) :: pr.needs }

/-- Notes that a target has been built. -/
def complete {p : Project} (pr : Progress p) (i : p.TargetIndex) : Progress p :=
  { pr with completed := pr.completed ++ [i] }

/-- Learning what a target needs builds nothing. -/
@[simp]
theorem completed_learn {p : Project} (pr : Progress p) (i : p.TargetIndex)
    (needs : List p.TargetIndex) : (pr.learn i needs).completed = pr.completed := by
  simp only [learn]
  split <;> rfl

/-- How many targets have not been built. -/
def remaining {p : Project} (pr : Progress p) : Nat :=
  (List.finRange p.targets.length).countP (· ∉ pr.completed)

end Progress

/-- What is left to build. -/
structure Agenda (p : Project) where
  /-- The targets that wait, the next one in front. -/
  pending : List p.TargetIndex
  /-- The targets that wait for one they need. -/
  expanding : List p.TargetIndex
deriving DecidableEq, Repr

namespace Agenda

/-- How many targets neither have been built, nor wait for one they need, nor come next. -/
def untouched {p : Project} (a : Agenda p) (pr : Progress p) : Nat :=
  (List.finRange p.targets.length).countP fun i =>
    i ∉ pr.completed ∧ i ∉ a.expanding ∧ a.pending.head? ≠ some i

end Agenda

/-- Building a target for the first time leaves fewer to build. -/
theorem Progress.remaining_complete {p : Project} {pr : Progress p} {i : p.TargetIndex}
    {needs : List p.TargetIndex} (h : i ∉ pr.completed) :
    ((pr.learn i needs).complete i).remaining < pr.remaining := by
  refine countP_lt_countP ?_ (List.mem_finRange i) ?_ ?_
  · intro j _
    simp only [complete, completed_learn, List.mem_append, decide_eq_true_eq]
    exact fun hj hc => hj (Or.inl hc)
  · simp [complete]
  · simpa using h

namespace Agenda

/-- The order in which what is left to do becomes less. -/
abbrev Less :=
  Prod.Lex (fun m n : Nat => m < n) (Prod.Lex (fun m n : Nat => m < n) fun m n : Nat => m < n)

/-- Dropping a target that has been built leaves no more untouched. -/
theorem untouched_drop_le {p : Project} {pr : Progress p} {next : p.TargetIndex}
    {waiting expanding : List p.TargetIndex} (h : next ∈ pr.completed) :
    untouched ⟨waiting, expanding⟩ pr ≤ untouched ⟨next :: waiting, expanding⟩ pr := by
  refine List.countP_mono_left fun i _ hi => ?_
  replace hi := of_decide_eq_true hi
  refine decide_eq_true ⟨hi.1, hi.2.1, fun e => hi.1 ?_⟩
  cases e
  exact h

/-- Dropping a target that has been built leaves less to do. -/
theorem lex_drop {p : Project} {pr : Progress p} {next : p.TargetIndex}
    {waiting expanding : List p.TargetIndex} (h : next ∈ pr.completed) :
    Less (pr.remaining, untouched ⟨waiting, expanding⟩ pr, waiting.length)
      (pr.remaining, untouched ⟨next :: waiting, expanding⟩ pr, (next :: waiting).length) := by
  refine Prod.Lex.right _ ?_
  rcases Nat.lt_or_eq_of_le (untouched_drop_le h) with lt | eq
  · exact Prod.Lex.left _ _ lt
  · rw [eq]
    exact Prod.Lex.right _ (Nat.lt_succ_self _)

/-- Going on to a target that is needed and has not been touched leaves fewer untouched. -/
theorem untouched_push_lt {p : Project} {pr : Progress p} {next needed : p.TargetIndex}
    {needs waiting expanding : List p.TargetIndex}
    (h : (needs.find? fun i => i ∉ pr.completed) = some needed)
    (cyclic : ¬(needed = next ∨ needed ∈ expanding)) :
    untouched ⟨needed :: next :: waiting, next :: expanding⟩ (pr.learn next needs) <
      untouched ⟨next :: waiting, expanding⟩ pr := by
  simp only [not_or] at cyclic
  have fresh : needed ∉ pr.completed := by
    have := List.find?_some h
    simpa using this
  -- What is needed was untouched and now is being expanded; nothing else becomes untouched.
  refine countP_lt_countP ?_ (List.mem_finRange needed) ?_ ?_
  · intro i _ hi
    replace hi := of_decide_eq_true hi
    simp only [Progress.completed_learn, List.mem_cons, not_or] at hi
    exact decide_eq_true ⟨hi.1, hi.2.1.2, fun e => hi.2.1.1 (by cases e; rfl)⟩
  · simp
  · exact decide_eq_true ⟨fresh, cyclic.2, fun e => cyclic.1 (by cases e; rfl)⟩

/-- Going on to a target that is needed and has not been touched leaves less to do. -/
theorem lex_push {p : Project} {pr : Progress p} {next needed : p.TargetIndex}
    {needs waiting expanding : List p.TargetIndex}
    (h : (needs.find? fun i => i ∉ pr.completed) = some needed)
    (cyclic : ¬(needed = next ∨ needed ∈ expanding)) :
    Less
      ((pr.learn next needs).remaining,
        untouched ⟨needed :: next :: waiting, next :: expanding⟩ (pr.learn next needs),
        (needed :: next :: waiting).length)
      (pr.remaining, untouched ⟨next :: waiting, expanding⟩ pr, (next :: waiting).length) := by
  have same : (pr.learn next needs).remaining = pr.remaining := by
    simp [Progress.remaining]
  rw [same]
  exact Prod.Lex.right _ (Prod.Lex.left _ _ (untouched_push_lt h cyclic))

/-- Targets other than one, the way the induction on `work` says it. -/
theorem unattach_filter_ne {p : Project} (targets : List p.TargetIndex) (i : p.TargetIndex) :
    (targets.attach.filter fun ⟨j, _⟩ => j ≠ i).unattach = targets.filter (· ≠ i) := by
  rw [List.unattach_filter, List.unattach_attach]
  intro j _
  rfl

end Agenda

namespace Site

/-- The targets that a target needs; names of no target are warned of. -/
def resolveNeeds (site : Site) (s : Session) (t : Target) :
    List String → Session × List site.project.TargetIndex
  | [] => (s, [])
  | name :: rest =>
    match site.project.findTarget? name with
    | some i =>
      let (s, more) := resolveNeeds site s t rest
      (s, i :: more)
    | none =>
      resolveNeeds site
        (site.warn s
          ("Target '" ++ t.name ++ "' depends on '" ++ name ++ "', which does not exist.")) t rest

/-- The targets that a target needs, evaluated unless they are known already. -/
def needsOf (site : Site) (s : Session) (pr : Progress site.project)
    (i : site.project.TargetIndex) : Built (List site.project.TargetIndex) :=
  match pr.needs.lookup i, (site.project.target i).dependsOn with
  | some needs, _ => (s, .ok needs)
  | none, none => (s, .ok [])
  | none, some e =>
    let t := site.project.target i
    site.require s t.name (e.evaluateEntries (site.context s)) fun names =>
      let (s, needs) := site.resolveNeeds s t names
      (s, .ok needs)

/-- Builds the targets of an agenda. -/
def work (site : Site) (s : Session) (pr : Progress site.project) (a : Agenda site.project) :
    Session × Progress site.project × Except BuildError Unit :=
  match a with
  | ⟨[], _⟩ => (s, pr, .ok ())
  | ⟨next :: waiting, expanding⟩ =>
    if next ∈ pr.completed then site.work s pr ⟨waiting, expanding⟩
    else
      -- The needs were evaluated when the target first came to the front, or are evaluated now.
      match site.needsOf s pr next with
      | (s, .error e) => (s, pr, .error e)
      | (s, .ok needs) =>
        match _ : needs.find? fun i => i ∉ pr.completed with
        | some needed =>
          -- What waits for its own needs cannot be needed by one of them.
          if needed = next ∨ needed ∈ expanding then
            let e := BuildError.circular (site.project.target needed).name
              (site.project.target next).name
            (site.complain s e.message, pr.learn next needs, .error e)
          else site.work s (pr.learn next needs) ⟨needed :: next :: waiting, next :: expanding⟩
        | none =>
          match site.runTarget s (site.project.target next) with
          | (s, .error e) => (s, pr.learn next needs, .error e)
          | (s, .ok ()) =>
            site.work s ((pr.learn next needs).complete next)
              ⟨waiting, expanding.filter (· ≠ next)⟩
termination_by (pr.remaining, a.untouched pr, a.pending.length)
decreasing_by
  · exact Agenda.lex_drop ‹_›
  · exact Agenda.lex_push ‹_› ‹_›
  · exact Prod.Lex.left _ _ (Progress.remaining_complete ‹_›)

end Site

end BuildEngine
