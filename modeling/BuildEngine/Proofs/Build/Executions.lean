import BuildEngine.Proofs.Build.Narration

/-!
# Which tasks are executed

The tasks whose bodies a target executes, said by rules that keep account of them. Tasks are passed
by as long as nothing goes wrong (`Site.Passes`): a task whose condition is true is executed, any
other one is left out. A target stops at the first task that the build ends with (`Site.Stops`).

A target runs well exactly if it can be completed (`Site.runTarget_eq_ok_iff`), and it fails exactly
if it is aborted (`Site.runTarget_eq_error_iff`). Either way it leaves the environment and the
workspace that the bodies leave which are accounted for, executed on their own one after the other
(`Site.perform`).
-/

namespace BuildEngine

namespace Site

variable {site : Site} {s s₁ s' : Session} {t : Target} {node : TaskNode}
  {nodes ran ran' : List TaskNode} {e : BuildError}

/-! ## Bodies -/

/-- Executes the bodies of tasks, whatever becomes of each. -/
def perform (site : Site) (s : Session) (nodes : List TaskNode) : Session :=
  nodes.foldl (fun s node => (site.runTask s node.task).1) s

/-- To execute one body is to run its task. -/
theorem perform_singleton : site.perform s [node] = (site.runTask s node.task).1 :=
  rfl

/-- Bodies are executed one after the other. -/
theorem perform_append :
    site.perform s (ran ++ ran') = site.perform (site.perform s ran) ran' :=
  List.foldl_append

/-- Bodies cannot tell sessions apart that differ in their logs only. -/
theorem alike_perform (h : s.Alike s') (nodes : List TaskNode) :
    (site.perform s nodes).Alike (site.perform s' nodes) := by
  induction nodes generalizing s s' with
  | nil => exact h
  | cons node nodes ih => exact ih (alike_runTask h node.task)

/-- What follows on bodies follows on a session in which they have left the same. -/
theorem alike_perform_append (h : s₁.Alike (site.perform s ran))
    (h' : s'.Alike (site.perform s₁ ran')) : s'.Alike (site.perform s (ran ++ ran')) := by
  rw [perform_append]
  exact h'.trans (alike_perform h ran')

/-! ## Tasks -/

/-- Tasks are passed one after the other: one whose condition is false is left out, and one whose
condition is true is executed, ends well and writes no error. The second list are those that are
executed. -/
inductive Passes (site : Site) : Session → List TaskNode → List TaskNode → Session → Prop
  | nil {s : Session} : Passes site s [] [] s
  | skip {s s' : Session} {node : TaskNode} {nodes ran : List TaskNode} :
    s.workspace.cancelled = false →
      Expr.evaluateOptional node.condition (site.context s) = .ok false →
        Passes site s nodes ran s' → Passes site s (node :: nodes) ran s'
  | run {s s₁ s' : Session} {node : TaskNode} {nodes ran : List TaskNode} :
    s.workspace.cancelled = false →
      Expr.evaluateOptional node.condition (site.context s) = .ok true →
        site.runTask s node.task = (s₁, .ok ()) → site.errorCount s₁ ≤ site.errorCount s →
          Passes site s₁ nodes ran s' → Passes site s (node :: nodes) (node :: ran) s'

/-- A task of a target ends the build. The list is the task itself if its body was executed. -/
inductive EndsAt (site : Site) (t : Target) :
    Session → TaskNode → List TaskNode → Session → BuildError → Prop
  /-- The build is found cancelled in front of the task. -/
  | cancelled {s : Session} {node : TaskNode} :
    s.workspace.cancelled = true → EndsAt site t s node [] s .cancelled
  /-- The condition of the task cannot be evaluated. -/
  | condition {s : Session} {node : TaskNode} {reason : EvalError} :
    s.workspace.cancelled = false →
      Expr.evaluateOptional node.condition (site.context s) = .error reason →
        EndsAt site t s node [] (site.complain s (t.name ++ ": " ++ reason.message))
          (.evaluation reason)
  /-- The task fails. -/
  | failed {s s₁ : Session} {node : TaskNode} {reason : TaskError} :
    s.workspace.cancelled = false →
      Expr.evaluateOptional node.condition (site.context s) = .ok true →
        site.runTask s node.task = (s₁, .error reason) → reason ≠ .cancelled →
          EndsAt site t s node [node]
            (site.complain s₁ (node.task.kindName ++ ": " ++ reason.message)) (.failed t.name)
  /-- The task ends well, but it has written an error. -/
  | logged {s s₁ : Session} {node : TaskNode} :
    s.workspace.cancelled = false →
      Expr.evaluateOptional node.condition (site.context s) = .ok true →
        site.runTask s node.task = (s₁, .ok ()) → site.errorCount s < site.errorCount s₁ →
          EndsAt site t s node [node] s₁ (.failed t.name)
  /-- The task is cancelled. -/
  | interrupted {s s₁ : Session} {node : TaskNode} :
    s.workspace.cancelled = false →
      Expr.evaluateOptional node.condition (site.context s) = .ok true →
        site.runTask s node.task = (s₁, .error .cancelled) →
          EndsAt site t s node [node] s₁ .cancelled

/-- The tasks of a target are passed up to one that ends the build. -/
inductive Stops (site : Site) (t : Target) :
    Session → List TaskNode → List TaskNode → Session → BuildError → Prop
  | intro {s s₁ s' : Session} {before behind ran last : List TaskNode} {node : TaskNode}
      {e : BuildError} :
    site.Passes s before ran s₁ → site.EndsAt t s₁ node last s' e →
      Stops site t s (before ++ node :: behind) (ran ++ last) s' e

/-- A task that is left out may stand in front of tasks that stop. -/
theorem Stops.skip (hcancelled : s.workspace.cancelled = false)
    (hcondition : Expr.evaluateOptional node.condition (site.context s) = .ok false)
    (h : site.Stops t s nodes ran s' e) : site.Stops t s (node :: nodes) ran s' e := by
  obtain ⟨hpasses, hend⟩ := h
  exact .intro (.skip hcancelled hcondition hpasses) hend

/-- A task that is passed may stand in front of tasks that stop. -/
theorem Stops.run (hcancelled : s.workspace.cancelled = false)
    (hcondition : Expr.evaluateOptional node.condition (site.context s) = .ok true)
    (hrun : site.runTask s node.task = (s₁, .ok ()))
    (hcount : site.errorCount s₁ ≤ site.errorCount s) (h : site.Stops t s₁ nodes ran s' e) :
    site.Stops t s (node :: nodes) (node :: ran) s' e := by
  obtain ⟨hpasses, hend⟩ := h
  exact .intro (.run hcancelled hcondition hrun hcount hpasses) hend

/-- Behind tasks that are passed the others run as if they were alone. -/
theorem Passes.runTasks_append {before : List TaskNode} (h : site.Passes s before ran s₁)
    (nodes : List TaskNode) : site.runTasks t s (before ++ nodes) = site.runTasks t s₁ nodes := by
  induction h with
  | nil => rfl
  | skip hcancelled hcondition _ ih =>
    rw [List.cons_append, runTasks]
    simp [hcancelled, hcondition, require, ih]
  | run hcancelled hcondition hrun hcount _ ih =>
    rw [List.cons_append, runTasks]
    simp [hcancelled, hcondition, hrun, require, Nat.not_lt.2 hcount, ih]

/-- A task that ends the build keeps those behind it from running. -/
theorem EndsAt.runTasks_cons {last : List TaskNode} (h : site.EndsAt t s node last s' e)
    (nodes : List TaskNode) : site.runTasks t s (node :: nodes) = (s', .error e) := by
  rw [runTasks]
  cases h with
  | cancelled hcancelled => simp [hcancelled]
  | condition hcancelled hcondition => simp [hcancelled, hcondition, require]
  | failed hcancelled hcondition hrun hreason =>
    simp [hcancelled, hcondition, hrun, require]
  | logged hcancelled hcondition hrun hcount =>
    simp [hcancelled, hcondition, hrun, require, hcount]
  | interrupted hcancelled hcondition hrun => simp [hcancelled, hcondition, hrun, require]

/-- Tasks are all passed, or they stop at one. -/
theorem passes_or_stops (site : Site) (t : Target) (s : Session) (nodes : List TaskNode) :
    (∃ ran s', site.Passes s nodes ran s') ∨ ∃ ran s' e, site.Stops t s nodes ran s' e := by
  induction nodes generalizing s with
  | nil => exact .inl ⟨[], s, .nil⟩
  | cons node nodes ih =>
    -- One case for each way a task can go; only the two good ones leave the rest to be looked at.
    have hend {last : List TaskNode} {s' : Session} {e : BuildError}
        (h : site.EndsAt t s node last s' e) :
        ∃ ran s' e, site.Stops t s (node :: nodes) ran s' e := by
      refine ⟨last, s', e, ?_⟩
      show site.Stops t s ([] ++ node :: nodes) ([] ++ last) s' e
      exact .intro .nil h
    cases hcancelled : s.workspace.cancelled with
    | true => exact .inr (hend (.cancelled hcancelled))
    | false =>
      match hcondition : Expr.evaluateOptional node.condition (site.context s) with
      | .error reason => exact .inr (hend (.condition hcancelled hcondition))
      | .ok false =>
        refine (ih s).imp ?_ ?_
        · rintro ⟨ran, s', h⟩
          exact ⟨ran, s', .skip hcancelled hcondition h⟩
        · rintro ⟨ran, s', e, h⟩
          exact ⟨ran, s', e, h.skip hcancelled hcondition⟩
      | .ok true =>
        match hrun : site.runTask s node.task with
        | (s₁, .error reason) =>
          by_cases hreason : reason = .cancelled
          · subst hreason
            exact .inr (hend (.interrupted hcancelled hcondition hrun))
          · exact .inr (hend (.failed hcancelled hcondition hrun hreason))
        | (s₁, .ok ()) =>
          rcases Nat.lt_or_ge (site.errorCount s) (site.errorCount s₁) with hcount | hcount
          · exact .inr (hend (.logged hcancelled hcondition hrun hcount))
          · refine (ih s₁).imp ?_ ?_
            · rintro ⟨ran, s', h⟩
              exact ⟨node :: ran, s', .run hcancelled hcondition hrun hcount h⟩
            · rintro ⟨ran, s', e, h⟩
              exact ⟨node :: ran, s', e, h.run hcancelled hcondition hrun hcount⟩

/-- Tasks that are passed run well. -/
theorem Passes.runTasks_eq (h : site.Passes s nodes ran s') :
    site.runTasks t s nodes = (s', .ok ()) := by
  have hrun := h.runTasks_append (t := t) []
  rwa [List.append_nil] at hrun

/-- Tasks that stop fail with the error of the task that ends the build. -/
theorem Stops.runTasks_eq (h : site.Stops t s nodes ran s' e) :
    site.runTasks t s nodes = (s', .error e) := by
  obtain ⟨hpasses, hend⟩ := h
  exact (hpasses.runTasks_append _).trans (hend.runTasks_cons _)

/-- Tasks that are passed leave what their bodies leave. -/
theorem Passes.eq_perform (h : site.Passes s nodes ran s') : s' = site.perform s ran := by
  induction h with
  | nil => rfl
  | skip _ _ _ ih => exact ih
  | run _ _ hrun _ _ ih =>
    rw [ih, perform, perform, List.foldl_cons, hrun]

/-- The task that ends the build leaves what its body leaves, but for the log. -/
theorem EndsAt.alike_perform {last : List TaskNode} (h : site.EndsAt t s node last s' e) :
    s'.Alike (site.perform s last) := by
  cases h with
  | cancelled => exact .refl s
  | condition => exact alike_complain _
  | failed _ _ hrun =>
    rw [perform_singleton, hrun]
    exact alike_complain _
  | logged _ _ hrun | interrupted _ _ hrun =>
    rw [perform_singleton, hrun]
    exact .refl s'

/-- Tasks that stop leave what the executed bodies leave, but for the log. -/
theorem Stops.alike_perform (h : site.Stops t s nodes ran s' e) :
    s'.Alike (site.perform s ran) := by
  obtain ⟨hpasses, hend⟩ := h
  refine alike_perform_append ?_ hend.alike_perform
  rw [← hpasses.eq_perform]
  exact .refl _

/-! ## Targets -/

/-- A target is done with: its condition is false, or it is up to date, or all its tasks are passed.
The list are the tasks that are executed. -/
inductive Completes (site : Site) (t : Target) : Session → List TaskNode → Session → Prop
  | disabled {s : Session} :
    Expr.evaluateOptional t.condition (site.context s) = .ok false →
      Completes site t s [] (site.announce s .low (skippedMessage t))
  | upToDate {s : Session} :
    Expr.evaluateOptional t.condition (site.context s) = .ok true →
      site.isUpToDate s t = .ok true →
        Completes site t s [] (site.announce s .low (upToDateMessage t))
  | ran {s s' : Session} {ran : List TaskNode} :
    Expr.evaluateOptional t.condition (site.context s) = .ok true →
      site.isUpToDate s t = .ok false →
        site.Passes (site.announce s .normal (t.name ++ ":")) t.tasks ran s' →
          Completes site t s ran s'

/-- A target ends the build: its condition, or whether it is up to date, cannot be evaluated, or its
tasks stop. The list are the tasks that were executed. -/
inductive Aborts (site : Site) (t : Target) :
    Session → List TaskNode → Session → BuildError → Prop
  | condition {s : Session} {reason : EvalError} :
    Expr.evaluateOptional t.condition (site.context s) = .error reason →
      Aborts site t s [] (site.complain s (t.name ++ ": " ++ reason.message)) (.evaluation reason)
  | upToDate {s : Session} {reason : EvalError} :
    Expr.evaluateOptional t.condition (site.context s) = .ok true →
      site.isUpToDate s t = .error reason →
        Aborts site t s [] (site.complain s (t.name ++ ": " ++ reason.message))
          (.evaluation reason)
  | ran {s s' : Session} {ran : List TaskNode} {e : BuildError} :
    Expr.evaluateOptional t.condition (site.context s) = .ok true →
      site.isUpToDate s t = .ok false →
        site.Stops t (site.announce s .normal (t.name ++ ":")) t.tasks ran s' e →
          Aborts site t s ran s' e

/-- A target that is done with ran well. -/
theorem Completes.runTarget_eq (h : site.Completes t s ran s') :
    site.runTarget s t = (s', .ok ()) := by
  rw [runTarget]
  cases h with
  | disabled hcondition => simp [hcondition, require]
  | upToDate hcondition hupToDate => simp [hcondition, hupToDate, require]
  | ran hcondition hupToDate hpasses =>
    simp [hcondition, hupToDate, require, hpasses.runTasks_eq]

/-- A target that ends the build fails. -/
theorem Aborts.runTarget_eq (h : site.Aborts t s ran s' e) :
    site.runTarget s t = (s', .error e) := by
  rw [runTarget]
  cases h with
  | condition hcondition => simp [hcondition, require]
  | upToDate hcondition hupToDate => simp [hcondition, hupToDate, require]
  | ran hcondition hupToDate hstops => simp [hcondition, hupToDate, require, hstops.runTasks_eq]

/-- Every target is done with or ends the build. -/
theorem completes_or_aborts (site : Site) (t : Target) (s : Session) :
    (∃ ran s', site.Completes t s ran s') ∨ ∃ ran s' e, site.Aborts t s ran s' e := by
  -- The conditions are asked in this order, and each answer ends the target or goes on.
  match hcondition : Expr.evaluateOptional t.condition (site.context s) with
  | .error reason => exact .inr ⟨[], _, _, .condition hcondition⟩
  | .ok false => exact .inl ⟨[], _, .disabled hcondition⟩
  | .ok true =>
    match hupToDate : site.isUpToDate s t with
    | .error reason => exact .inr ⟨[], _, _, .upToDate hcondition hupToDate⟩
    | .ok true => exact .inl ⟨[], _, .upToDate hcondition hupToDate⟩
    | .ok false =>
      refine (site.passes_or_stops t (site.announce s .normal (t.name ++ ":")) t.tasks).imp ?_ ?_
      · rintro ⟨ran, s', h⟩
        exact ⟨ran, s', .ran hcondition hupToDate h⟩
      · rintro ⟨ran, s', e, h⟩
        exact ⟨ran, s', e, .ran hcondition hupToDate h⟩

/-- A target runs well exactly if it is done with. -/
theorem runTarget_eq_ok_iff :
    site.runTarget s t = (s', .ok ()) ↔ ∃ ran, site.Completes t s ran s' := by
  constructor
  · intro h
    rcases site.completes_or_aborts t s with ⟨ran, s₁, hcompletes⟩ | ⟨ran, s₁, e, haborts⟩
    · cases hcompletes.runTarget_eq.symm.trans h
      exact ⟨ran, hcompletes⟩
    · cases haborts.runTarget_eq.symm.trans h
  · rintro ⟨ran, hcompletes⟩
    exact hcompletes.runTarget_eq

/-- A target fails exactly if it ends the build. -/
theorem runTarget_eq_error_iff :
    site.runTarget s t = (s', .error e) ↔ ∃ ran, site.Aborts t s ran s' e := by
  constructor
  · intro h
    rcases site.completes_or_aborts t s with ⟨ran, s₁, hcompletes⟩ | ⟨ran, s₁, e, haborts⟩
    · cases hcompletes.runTarget_eq.symm.trans h
    · cases haborts.runTarget_eq.symm.trans h
      exact ⟨ran, haborts⟩
  · rintro ⟨ran, haborts⟩
    exact haborts.runTarget_eq

/-- A completed target leaves what the bodies of the executed tasks leave. -/
theorem Completes.alike_perform (h : site.Completes t s ran s') :
    s'.Alike (site.perform s ran) := by
  cases h with
  | disabled | upToDate => exact alike_announce _ _
  | ran _ _ hpasses =>
    rw [hpasses.eq_perform]
    exact Site.alike_perform (alike_announce _ _) ran

/-- So does an aborted one. -/
theorem Aborts.alike_perform (h : site.Aborts t s ran s' e) : s'.Alike (site.perform s ran) := by
  cases h with
  | condition | upToDate => exact alike_complain _
  | ran _ _ hstops =>
    exact hstops.alike_perform.trans (Site.alike_perform (alike_announce _ _) ran)

end Site

end BuildEngine
