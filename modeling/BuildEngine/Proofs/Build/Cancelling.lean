import BuildEngine.Graph.Basic
import BuildEngine.Proofs.Build.Executions
import BuildEngine.Proofs.Build.Reporting
import BuildEngine.Proofs.Build.Turns

/-!
# Cancelling a build

A build can be found cancelled when it is started, and it can be cancelled while a command or a
compiler runs for one of its tasks: what is killed then ends the build, and what ends by itself does
not. From then on no body of a task is executed: the bodies that a build executes
(`Site.BuildExecutes`) are executed one after the other, and in front of each the build was not yet
cancelled (`Site.Heeds`). Targets without anything to execute are still completed, but a build that
comes to a task while it is cancelled (`Site.BuildReaches`) ends there as cancelled.
-/

namespace BuildEngine

namespace Site

variable {site : Site} {s s₁ s₂ s' u : Session} {t : Target} {node : TaskNode}
  {nodes ran more before behind last : List TaskNode} {pr pr' : Progress site.project}
  {a : Agenda site.project} {next : site.project.TargetIndex}
  {needs : List site.project.TargetIndex} {e : BuildError} {requested : List String}

/-! ## Bodies in front of which the build is not cancelled -/

/-- Bodies are executed one after the other, each of them in a session that is not cancelled. -/
def Heeds (site : Site) : Session → List TaskNode → Prop
  | _, [] => True
  | s, node :: ran =>
    s.workspace.cancelled = false ∧ Heeds site (site.runTask s node.task).1 ran

/-- What the log holds does not matter to heeding. -/
theorem Heeds.alike (h : site.Heeds s ran) (halike : s.Alike s') : site.Heeds s' ran := by
  induction ran generalizing s s' with
  | nil => trivial
  | cons node ran ih =>
    refine ⟨?_, ih h.2 (alike_runTask halike node.task)⟩
    rw [← halike.workspace]
    exact h.1

/-- Bodies heed if the first of them do, and the others do in what these leave. -/
theorem Heeds.append (h : site.Heeds s ran) (hmore : site.Heeds (site.perform s ran) more) :
    site.Heeds s (ran ++ more) := by
  induction ran generalizing s with
  | nil => exact hmore
  | cons node ran ih => exact ⟨h.1, ih h.2 hmore⟩

/-- When the bodies executed so far have cancelled the build, there are no others. -/
theorem Heeds.behind_eq_nil (h : site.Heeds s (before ++ behind))
    (hcancelled : (site.perform s before).workspace.cancelled = true) : behind = [] := by
  induction before generalizing s with
  | nil =>
    cases behind with
    | nil => rfl
    | cons node behind =>
      have hnot : s.workspace.cancelled = false := h.1
      rw [show (site.perform s []).workspace.cancelled = s.workspace.cancelled from rfl, hnot]
        at hcancelled
      cases hcancelled
  | cons node before ih => exact ih h.2 hcancelled

/-- Tasks that are passed heed: the token is looked at in front of each. -/
theorem Passes.heeds (h : site.Passes s nodes ran s') : site.Heeds s ran := by
  induction h with
  | nil => trivial
  | skip _ _ _ ih => exact ih
  | run hcancelled _ hrun _ _ ih =>
    refine ⟨hcancelled, ?_⟩
    rw [hrun]
    exact ih

/-- The task that ends the build heeds, if its body was executed at all. -/
theorem EndsAt.heeds (h : site.EndsAt t s node last s' e) : site.Heeds s last := by
  cases h with
  | cancelled | condition => trivial
  | failed hcancelled | logged hcancelled | interrupted hcancelled => exact ⟨hcancelled, trivial⟩

/-- Tasks that stop heed, the last one included. -/
theorem Stops.heeds (h : site.Stops t s nodes ran s' e) : site.Heeds s ran := by
  obtain ⟨hpasses, hend⟩ := h
  refine hpasses.heeds.append ?_
  rw [← hpasses.eq_perform]
  exact hend.heeds

/-- A target that is done with heeds. -/
theorem Completes.heeds (h : site.Completes t s ran s') : site.Heeds s ran := by
  cases h with
  | disabled | upToDate => trivial
  | ran _ _ hpasses => exact hpasses.heeds.alike (alike_announce _ _)

/-- A target that ends the build heeds. -/
theorem Aborts.heeds (h : site.Aborts t s ran s' e) : site.Heeds s ran := by
  cases h with
  | condition | upToDate => trivial
  | ran _ _ hstops => exact hstops.heeds.alike (alike_announce _ _)

/-! ## Bodies that work executes -/

/-- The target in front is due: it has not been built, and all that it needs has been. It is run in
the session that evaluating its needs leaves. -/
inductive IsDue (site : Site) (s : Session) (pr : Progress site.project) :
    Agenda site.project → site.project.TargetIndex → List site.project.TargetIndex →
      Session → Prop
  | intro {next : site.project.TargetIndex}
      {needs waiting expanding : List site.project.TargetIndex} {s₁ : Session} :
    next ∉ pr.completed → site.needsOf s pr next = (s₁, .ok needs) →
      (∀ i ∈ needs, i ∈ pr.completed) →
        IsDue site s pr ⟨next :: waiting, expanding⟩ next needs s₁

/-- The bodies that a turn executes: those of the target in front if it is due, and none
otherwise. -/
inductive Executes (site : Site) (s : Session) (pr : Progress site.project)
    (a : Agenda site.project) : List TaskNode → site.Turn → Prop
  | none {turn : site.Turn} :
    (∀ next needs s₁, ¬site.IsDue s pr a next needs s₁) → site.Takes s pr a turn →
      Executes site s pr a [] turn
  | completes {next : site.project.TargetIndex} {needs : List site.project.TargetIndex}
      {s₁ s' : Session} {ran : List TaskNode} {pr' : Progress site.project}
      {a' : Agenda site.project} :
    site.IsDue s pr a next needs s₁ → site.Completes (site.project.target next) s₁ ran s' →
      site.Takes s pr a (.on s' pr' a') → Executes site s pr a ran (.on s' pr' a')
  | aborts {next : site.project.TargetIndex} {needs : List site.project.TargetIndex}
      {s₁ s' : Session} {ran : List TaskNode} {pr' : Progress site.project} {e : BuildError} :
    site.IsDue s pr a next needs s₁ → site.Aborts (site.project.target next) s₁ ran s' e →
      site.Takes s pr a (.done s' pr' (.error e)) →
        Executes site s pr a ran (.done s' pr' (.error e))

/-- The bodies that the work on an agenda executes, turn by turn. -/
inductive WorkExecutes (site : Site) :
    Session → Progress site.project → Agenda site.project → List TaskNode → Prop
  | last {s s' : Session} {pr pr' : Progress site.project} {a : Agenda site.project}
      {ran : List TaskNode} {r : Except BuildError Unit} :
    site.Executes s pr a ran (.done s' pr' r) → WorkExecutes site s pr a ran
  | turn {s s' : Session} {pr pr' : Progress site.project} {a a' : Agenda site.project}
      {ran more : List TaskNode} :
    site.Executes s pr a ran (.on s' pr' a') → WorkExecutes site s' pr' a' more →
      WorkExecutes site s pr a (ran ++ more)

/-- The bodies that a build executes: none if it is not even known what is asked for. -/
inductive BuildExecutes (site : Site) (s : Session) (pr : Progress site.project)
    (requested : List String) : List TaskNode → Prop
  | names {s₁ : Session} {e : BuildError} :
    site.targetNames s requested = (s₁, .error e) → BuildExecutes site s pr requested []
  | work {s₁ : Session} {names : List String} {ran : List TaskNode} :
    site.targetNames s requested = (s₁, .ok names) →
      site.WorkExecutes (site.enlist s₁ [] names.reverse).1 pr
          ⟨(site.enlist s₁ [] names.reverse).2, []⟩ ran →
        BuildExecutes site s pr requested ran

/-- The session that a turn leaves. -/
def Turn.session : site.Turn → Session
  | .on s _ _ => s
  | .done s _ _ => s

/-- Evaluating needs changes nothing but the log. -/
theorem IsDue.alike (h : site.IsDue s pr a next needs s₁) : s₁.Alike s := by
  obtain ⟨-, hneeds, -⟩ := h
  exact alike_of_needsOf hneeds

/-- A turn that executes bodies is a turn. -/
theorem Executes.takes {turn : site.Turn} (h : site.Executes s pr a ran turn) :
    site.Takes s pr a turn := by
  cases h with
  | none _ htakes | completes _ _ htakes | aborts _ _ htakes => exact htakes

/-- A turn leaves what the bodies leave that it executes. -/
theorem Executes.alike_perform {turn : site.Turn} (h : site.Executes s pr a ran turn) :
    turn.session.Alike (site.perform s ran) := by
  cases h with
  | none hnone htakes =>
    cases htakes with
    | finishes | drops => exact .refl s
    | unknown _ hneeds | putsOff _ hneeds => exact alike_of_needsOf hneeds
    | circular _ hneeds => exact (alike_complain _).trans (alike_of_needsOf hneeds)
    | fails hni hneeds hbuilt | builds hni hneeds hbuilt =>
      -- Here the target in front is due.
      exact absurd (.intro hni hneeds hbuilt) (hnone _ _ _)
  | completes hdue hcompletes =>
    exact hcompletes.alike_perform.trans (Site.alike_perform hdue.alike _)
  | aborts hdue haborts => exact haborts.alike_perform.trans (Site.alike_perform hdue.alike _)

/-- The bodies of a turn heed. -/
theorem Executes.heeds {turn : site.Turn} (h : site.Executes s pr a ran turn) :
    site.Heeds s ran := by
  cases h with
  | none => trivial
  | completes hdue hcompletes => exact hcompletes.heeds.alike hdue.alike
  | aborts hdue haborts => exact haborts.heeds.alike hdue.alike

/-- Work leaves what the bodies leave that it executes. -/
theorem WorkExecutes.alike_perform (h : site.WorkExecutes s pr a ran) :
    (site.work s pr a).1.Alike (site.perform s ran) := by
  induction h with
  | last hran =>
    rw [hran.takes.work_eq]
    exact hran.alike_perform
  | turn hran _ ih =>
    rw [hran.takes.work_eq]
    exact alike_perform_append hran.alike_perform ih

/-- The bodies that the work on an agenda executes heed. -/
theorem WorkExecutes.heeds (h : site.WorkExecutes s pr a ran) : site.Heeds s ran := by
  induction h with
  | last hran => exact hran.heeds
  -- The bodies of later turns heed the session that those of this turn leave.
  | turn hran _ ih => exact hran.heeds.append (ih.alike hran.alike_perform)

/-! ## Bodies that a build executes -/

/-- What is asked for is put on the agenda without a change to the environment or the workspace. -/
theorem alike_enlist {names : List String} (h : site.targetNames s requested = (s₁, .ok names)) :
    (site.enlist s₁ [] names.reverse).1.Alike s :=
  (site.tells_enlist [] names.reverse).alike.trans (alike_of_targetNames h)

/-- What a build leaves is what the bodies that it executes leave, but for the log. -/
theorem BuildExecutes.alike_perform (h : site.BuildExecutes s pr requested ran) :
    (site.build s pr requested).1.Alike (site.perform s ran) := by
  rw [build]
  cases h with
  | names htargets =>
    rw [htargets]
    exact alike_of_targetNames htargets
  | work htargets hran =>
    rw [htargets]
    exact hran.alike_perform.trans (Site.alike_perform (alike_enlist htargets) ran)

/-- The bodies that a build executes heed. -/
theorem BuildExecutes.heeds (h : site.BuildExecutes s pr requested ran) : site.Heeds s ran := by
  cases h with
  | names => trivial
  | work htargets hran => exact hran.heeds.alike (alike_enlist htargets)

/-! ## Coming to a task -/

/-- A target that is run comes to one of its tasks, after those in front of it were passed. -/
inductive ComesTo (site : Site) (t : Target) (s u : Session) : Prop
  | intro {before behind ran : List TaskNode} {node : TaskNode} :
    Expr.evaluateOptional t.condition (site.context s) = .ok true →
      site.isUpToDate s t = .ok false → t.tasks = before ++ node :: behind →
        site.Passes (site.announce s .normal (t.name ++ ":")) before ran u → ComesTo site t s u

/-- The work on an agenda comes to a task of a target that is due, in one of its turns. The session
and the progress are those in front of the task. -/
inductive Reaches (site : Site) : Session → Progress site.project → Agenda site.project →
    Session → Progress site.project → Prop
  | here {s s₁ u : Session} {pr : Progress site.project} {a : Agenda site.project}
      {next : site.project.TargetIndex} {needs : List site.project.TargetIndex} :
    site.IsDue s pr a next needs s₁ → site.ComesTo (site.project.target next) s₁ u →
      Reaches site s pr a u (pr.learn next needs)
  | later {s s₁ u : Session} {pr pr₁ pr' : Progress site.project}
      {a a₁ : Agenda site.project} :
    site.Takes s pr a (.on s₁ pr₁ a₁) → Reaches site s₁ pr₁ a₁ u pr' → Reaches site s pr a u pr'

/-- A target that comes to a task in a cancelled session ends as cancelled, and nothing is done from
there on. -/
theorem ComesTo.runTarget_eq (h : site.ComesTo t s u) (hcancelled : u.workspace.cancelled = true) :
    site.runTarget s t = (u, .error .cancelled) := by
  obtain @⟨before, behind, ran, node, hcondition, hupToDate, htasks, hpasses⟩ := h
  have hstops : site.Stops t (site.announce s .normal (t.name ++ ":")) t.tasks (ran ++ []) u
      .cancelled := by
    rw [htasks]
    exact .intro hpasses (.cancelled hcancelled)
  exact Aborts.runTarget_eq (.ran hcondition hupToDate hstops)

/-- Work that comes to a task while it is cancelled ends there. -/
theorem Reaches.work_eq (h : site.Reaches s pr a u pr')
    (hcancelled : u.workspace.cancelled = true) :
    site.work s pr a = (u, pr', .error .cancelled) := by
  induction h with
  | here hdue hcomes =>
    obtain ⟨hni, hneeds, hbuilt⟩ := hdue
    exact work_of_aborts hni hneeds (by simpa using hbuilt) (hcomes.runTarget_eq hcancelled)
  | later htakes _ ih => exact htakes.work_eq.trans (ih hcancelled)

end Site

end BuildEngine
