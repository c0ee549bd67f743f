import BuildEngine.Counting
import BuildEngine.Path.Basic
import BuildEngine.Project.Basic

/-!
# Dependency trees

A graph drawn as a tree: the roots are the projects that nothing depends on, and below a project
stand those it depends on. A project that was drawn before is marked and not drawn out again.
-/

namespace BuildEngine.DependencyTree

/-- Every project with those it depends on. -/
abbrev Edges := List (Path × List Path)

/-- A place in the tree where a project is to be drawn. -/
structure Branch where
  /-- What stands in front of the branch. -/
  lead : String
  /-- Whether it is the last one below its parent. -/
  isLast : Bool
  /-- The project at its end. -/
  project : Path
deriving DecidableEq, Repr

/-- A line of the tree. -/
structure Line where
  /-- The branch that the line draws. -/
  branch : Branch
  /-- Whether the project was drawn before. -/
  isRepeat : Bool
deriving DecidableEq, Repr

/-- What is drawn in front of a project. -/
def Branch.connector (b : Branch) : String :=
  if b.isLast then "└─" else "├─"

/-- What stands in front of the branches below a branch. -/
def Branch.below (b : Branch) : String :=
  b.lead ++ if b.isLast then "   " else "│  "

/-- The short name of a project. -/
def shortName (file : Path) : String :=
  let name := file.fileName?.getD ""
  (Project.stripSuffix? name).getD name

/-- The text of a line. -/
def Line.text (l : Line) : String :=
  l.branch.lead ++ l.branch.connector ++ shortName l.branch.project ++ " [" ++
    l.branch.project.text ++ "]" ++ (if l.isRepeat then " (*)" else "") ++ "\n"

/-- The branches to the projects of a list. -/
def branches (lead : String) : List Path → List Branch
  | [] => []
  | [p] => [⟨lead, true, p⟩]
  | p :: rest => ⟨lead, false, p⟩ :: branches lead rest

/-- Whether a project is among others. -/
def includes (projects : List Path) (p : Path) : Bool :=
  projects.any fun q => q.same p

/-- The projects that a project depends on. -/
def dependencies (edges : Edges) (p : Path) : List Path :=
  -- Of two entries for one project the later counts.
  match edges.reverse.find? fun e => e.1.same p with
  | some e => e.2
  | none => []

/-- How many projects with dependencies have not been drawn. -/
def undrawnCount (edges : Edges) (drawn : List Path) : Nat :=
  edges.countP fun e => !includes drawn e.1

/-- Drawing does not raise the count. -/
theorem undrawnCount_cons_le (edges : Edges) (drawn : List Path) (p : Path) :
    undrawnCount edges (p :: drawn) ≤ undrawnCount edges drawn := by
  apply List.countP_mono_left
  intro e _ he
  simp only [includes, List.any_cons, Bool.not_or, Bool.and_eq_true] at he ⊢
  exact he.2

/-- Drawing a project with dependencies for the first time lowers the count. -/
theorem undrawnCount_cons_lt {edges : Edges} {drawn : List Path} {p : Path}
    (h : includes drawn p = false) (hd : dependencies edges p ≠ []) :
    undrawnCount edges (p :: drawn) < undrawnCount edges drawn := by
  have hmem : ∃ e ∈ edges, e.1.same p = true := by
    unfold dependencies at hd
    split at hd
    · rename_i e he
      have hs := List.find?_some he
      exact ⟨e, List.mem_reverse.1 (List.mem_of_find?_eq_some he), hs⟩
    · simp at hd
  obtain ⟨e, he, hs⟩ := hmem
  have hc : e.1.components = p.components := by simpa [Path.same] using hs
  -- The entry of `p` is drawn now and was not before.
  refine countP_lt_countP ?_ he ?_ ?_
  · intro f _ hf
    simp only [includes, List.any_cons, Bool.not_or, Bool.and_eq_true] at hf ⊢
    exact hf.2
  · simp [includes, Path.same, hc]
  · -- Two paths to one place are drawn or not drawn together.
    have : includes drawn e.1 = includes drawn p := by simp [includes, Path.same, hc]
    rw [this, h, Bool.not_false]

/-- The lines of pending branches, in the order of drawing. -/
def drawFrom (edges : Edges) (drawn : List Path) (pending : List Branch) : List Line :=
  match pending with
  | [] => []
  | b :: rest =>
    if includes drawn b.project then ⟨b, true⟩ :: drawFrom edges drawn rest
    else
      ⟨b, false⟩ :: drawFrom edges (b.project :: drawn)
        (branches b.below (dependencies edges b.project) ++ rest)
termination_by (undrawnCount edges drawn, pending.length)
decreasing_by
  · exact Prod.Lex.right _ (by simp)
  · rename_i h
    simp only [Bool.not_eq_true] at h
    by_cases hd : dependencies edges b.project = []
    · rw [hd]
      simp only [branches, List.nil_append]
      rcases Nat.lt_or_eq_of_le (undrawnCount_cons_le edges drawn b.project) with h' | h'
      · exact Prod.Lex.left _ _ h'
      · rw [h']; exact Prod.Lex.right _ (by simp)
    · exact Prod.Lex.left _ _ (undrawnCount_cons_lt h hd)

/-- The projects that nothing depends on; if there are none, all of them. -/
def roots (edges : Edges) : List Path :=
  let referenced := edges.flatMap Prod.snd
  let free := (edges.map Prod.fst).filter fun p => !includes referenced p
  if free = [] then edges.map Prod.fst else free

/-- The lines of the tree. -/
def lines (edges : Edges) : List Line :=
  drawFrom edges [] (branches "" (roots edges))

/-- The text of the tree. -/
def render (edges : Edges) : String :=
  if edges = [] then "No projects to display.\n"
  else String.join ((lines edges).map Line.text)

end BuildEngine.DependencyTree
