import BuildEngine.Counting
import BuildEngine.Environment
import BuildEngine.Project.Basic

/-!
# Project graphs

The projects of a build with their dependencies, and how far each has come. A project is handed
out once, when nothing it depends on is outstanding. A failure skips every project that depends
on the failed one, directly or through others. Projects are numbered in the order in which they
were registered.
-/

namespace BuildEngine

/-- How far a project has come. -/
inductive ProjectStatus where
  | todo
  | inFlight
  | succeeded
  | failed
  /-- Never built because something it depends on failed. -/
  | skipped
deriving DecidableEq, Repr

/-- Whether nothing more happens to a project. -/
def ProjectStatus.isFinished : ProjectStatus → Bool
  | succeeded | failed | skipped => true
  | todo | inFlight => false

/-- Why a graph refuses an operation. -/
inductive GraphError where
  | alreadyRegistered (file : Path)
  | notRegistered (file : Path)
  | alreadyStarted (file : Path)
  /-- The first project would depend on itself through the second. -/
  | cycle (dependent dependency : Path)
deriving DecidableEq, Repr

/-- The message of a graph error. -/
def GraphError.message : GraphError → String
  | alreadyRegistered file =>
    "Project '" ++ file.text ++ "' is already part of the build graph."
  | notRegistered file => "Project '" ++ file.text ++ "' is not part of the build graph."
  | alreadyStarted file =>
    "Project '" ++ file.text ++
      "' has already started building; its dependencies can no longer change."
  | cycle dependent dependency =>
    "Adding a dependency from '" ++ dependent.text ++ "' to '" ++ dependency.text ++
      "' would create a cycle."

/-- A project that is handed out to be built, with its environment. -/
structure BuildRequest where
  /-- The project to build. -/
  project : Project
  /-- The environment to build it in. -/
  environment : Environment
deriving DecidableEq, Repr

/-- A registered project. -/
structure ProjectNode where
  /-- The project. -/
  project : Project
  /-- The environment it was registered with, until it is handed out or finished. -/
  environment : Option Environment
  /-- How far it has come. -/
  status : ProjectStatus
  /-- The dependencies that have not succeeded yet. -/
  outstanding : List Nat
  /-- The projects it depends on, in the order in which they were added. -/
  dependencies : List Nat
  /-- The projects that depend on it, in the order in which they were added. -/
  dependents : List Nat
deriving DecidableEq, Repr

/-- Whether a project waits to be handed out. -/
def ProjectNode.isTodo (n : ProjectNode) : Bool :=
  n.status = .todo

/-- Whether a project can be handed out. -/
def ProjectNode.isReady (n : ProjectNode) : Bool :=
  n.isTodo && n.outstanding.isEmpty

/-- The projects of a build. -/
structure ProjectGraph where
  /-- The projects, in the order of their registration. -/
  nodes : List ProjectNode
  /-- How many projects have finished. -/
  finishedCount : Nat
  /-- Whether all projects were found finished, and none was added since. -/
  finished : Bool
deriving DecidableEq, Repr

namespace ProjectGraph

/-- A graph without projects. -/
def empty : ProjectGraph :=
  ⟨[], 0, false⟩

/-- The number of a project. -/
def index? (g : ProjectGraph) (file : Path) : Option Nat :=
  g.nodes.findIdx? fun n => n.project.file.same file

/-- The number of a project that must be registered. -/
def index (g : ProjectGraph) (file : Path) : Except GraphError Nat :=
  match g.index? file with
  | some i => .ok i
  | none => .error (.notRegistered file)

/-- How many projects wait to be handed out. -/
def todoCount (g : ProjectGraph) : Nat :=
  g.nodes.countP ProjectNode.isTodo

/-! ## Registration -/

/-- Registers a project that depends on nothing yet. -/
def add (g : ProjectGraph) (project : Project) (environment : Environment) :
    Except GraphError ProjectGraph :=
  if (g.index? project.file).isSome then .error (.alreadyRegistered project.file)
  else
    .ok { g with
      nodes := g.nodes ++ [⟨project, some environment, .todo, [], [], []⟩]
      finished := false }

/-- The numbers of the graph that have not been seen. -/
def unseenCount (g : ProjectGraph) (seen : List Nat) : Nat :=
  (List.range g.nodes.length).countP (· ∉ seen)

/-- Seeing a number of the graph for the first time lowers the count. -/
theorem unseenCount_cons_lt {g : ProjectGraph} {seen : List Nat} {i : Nat}
    (hi : i < g.nodes.length) (h : i ∉ seen) : g.unseenCount (i :: seen) < g.unseenCount seen := by
  refine countP_lt_countP ?_ (List.mem_range.2 hi) (by simp) (by simpa using h)
  intro j _ hj
  simp only [List.mem_cons, not_or, decide_eq_true_eq] at hj ⊢
  exact hj.2

/-- Seeing any number does not raise the count. -/
theorem unseenCount_cons_le (g : ProjectGraph) (seen : List Nat) (i : Nat) :
    g.unseenCount (i :: seen) ≤ g.unseenCount seen := by
  unfold unseenCount
  apply List.countP_mono_left
  intro j _ hj
  simp only [List.mem_cons, not_or, decide_eq_true_eq] at hj ⊢
  exact hj.2

/-- The dependencies of the project with a number. -/
def dependenciesAt (g : ProjectGraph) (i : Nat) : List Nat :=
  match g.nodes[i]? with
  | some n => n.dependencies
  | none => []

/-- Whether `target` is among the pending projects or something they depend on, given that
everything behind the seen ones is pending or seen too. -/
def reaches (g : ProjectGraph) (target : Nat) (pending seen : List Nat) : Bool :=
  match pending with
  | [] => false
  | i :: pending =>
    if i = target then true
    else if i ∈ seen then g.reaches target pending seen
    else g.reaches target (g.dependenciesAt i ++ pending) (i :: seen)
termination_by (g.unseenCount seen, pending.length)
decreasing_by
  · exact Prod.Lex.right _ (by simp)
  · rename_i hseen
    by_cases hi : i < g.nodes.length
    · exact Prod.Lex.left _ _ (unseenCount_cons_lt hi hseen)
    · have hnone : g.nodes[i]? = none := List.getElem?_eq_none (by omega)
      have hle := g.unseenCount_cons_le seen i
      simp only [dependenciesAt, hnone, List.nil_append]
      rcases Nat.lt_or_eq_of_le hle with h | h
      · exact Prod.Lex.left _ _ h
      · rw [h]; exact Prod.Lex.right _ (by simp)

/-- Whether one project is another, or depends on it directly or through others. -/
def dependsOn (g : ProjectGraph) (start target : Nat) : Bool :=
  g.reaches target [start] []

/-! ## Finishing -/

/-- Lets a project finish; one that has finished stays as it is. -/
def finish (g : ProjectGraph) (i : Nat) (status : ProjectStatus) : ProjectGraph :=
  match g.nodes[i]? with
  | none => g
  | some n =>
    if n.status.isFinished then g
    else
      { g with
        nodes := g.nodes.set i { n with status, environment := none }
        finishedCount := g.finishedCount + 1 }

/-- Whether a project waits to be handed out. -/
def isTodoAt (g : ProjectGraph) (i : Nat) : Bool :=
  match g.nodes[i]? with
  | some n => n.isTodo
  | none => false

/-- Skips those of some projects that wait to be handed out, and tells which they were. -/
def skipTodo (g : ProjectGraph) : List Nat → ProjectGraph × List Nat
  | [] => (g, [])
  | i :: rest =>
    if g.isTodoAt i then
      let (g', skipped) := skipTodo (g.finish i .skipped) rest
      (g', i :: skipped)
    else skipTodo g rest

/-- Skipping a waiting project leaves one less. -/
theorem todoCount_finish_skipped {g : ProjectGraph} {i : Nat} (h : g.isTodoAt i = true) :
    (g.finish i .skipped).todoCount + 1 = g.todoCount := by
  unfold isTodoAt at h
  unfold finish
  cases hn : g.nodes[i]? with
  | none => simp [hn] at h
  | some n =>
    obtain ⟨hi, hget⟩ := List.getElem?_eq_some_iff.1 hn
    simp only [hn, ProjectNode.isTodo, decide_eq_true_eq] at h
    -- The node is one of those that wait, so the count can be lowered.
    have hpos : 0 < g.nodes.countP ProjectNode.isTodo :=
      List.countP_pos_iff.2 ⟨n, hget ▸ List.getElem_mem hi, by simp [ProjectNode.isTodo, h]⟩
    simp only [h, ProjectStatus.isFinished, Bool.false_eq_true, if_false, todoCount,
      List.countP_set hi, hget, ProjectNode.isTodo, decide_true, if_true]
    simp only [reduceCtorEq, decide_false, Bool.false_eq_true, if_false]
    omega

/-- Every project that is skipped waited to be handed out before. -/
theorem todoCount_skipTodo (g : ProjectGraph) (is : List Nat) :
    (g.skipTodo is).1.todoCount + (g.skipTodo is).2.length = g.todoCount := by
  induction is generalizing g with
  | nil => simp [skipTodo]
  | cons i rest ih =>
    unfold skipTodo
    split
    · rename_i h
      have h₁ := ih (g.finish i .skipped)
      have h₂ := todoCount_finish_skipped h
      simp only [List.length_cons]
      omega
    · exact ih g

/-- The dependents of the project with a number. -/
def dependentsAt (g : ProjectGraph) (i : Nat) : List Nat :=
  match g.nodes[i]? with
  | some n => n.dependents
  | none => []

/-- Skips the waiting dependents of the pending projects, then theirs, and so on. -/
def skipBehind (g : ProjectGraph) (pending : List Nat) : ProjectGraph :=
  match pending with
  | [] => g
  | i :: rest =>
    have := g.todoCount_skipTodo (g.dependentsAt i)
    let next := g.skipTodo (g.dependentsAt i)
    -- Only those that were skipped now go on, so the search ends on shared dependents.
    skipBehind next.1 (rest ++ next.2)
termination_by g.todoCount + pending.length
decreasing_by simp only [List.length_append, List.length_cons]; omega

/-- Skips every waiting project that depends on one that failed. -/
def skipDependents (g : ProjectGraph) (failed : Nat) : ProjectGraph :=
  g.skipBehind [failed]

/-- Notes when all projects have finished. -/
def updateFinished (g : ProjectGraph) : ProjectGraph :=
  if !g.finished && g.finishedCount = g.nodes.length then { g with finished := true } else g

/-! ## Dependencies -/

/-- Changes the project with a number. -/
def modifyAt (g : ProjectGraph) (i : Nat) (f : ProjectNode → ProjectNode) : ProjectGraph :=
  { g with nodes := g.nodes.modify i f }

/-- Notes a new edge at both of its ends. -/
def link (g : ProjectGraph) (dependent dependency : Nat) (waits : Bool) : ProjectGraph :=
  let g := g.modifyAt dependent fun n =>
    { n with
      dependencies := n.dependencies ++ [dependency]
      outstanding := if waits then n.outstanding ++ [dependency] else n.outstanding }
  g.modifyAt dependency fun n => { n with dependents := n.dependents ++ [dependent] }

/-- The status of the project with a number. -/
def statusAt (g : ProjectGraph) (i : Nat) : Option ProjectStatus :=
  g.nodes[i]?.map ProjectNode.status

/-- Adds an edge between two projects of which the first waits to be handed out. One that comes
to depend on a failed or skipped project is skipped at once. -/
def connect (g : ProjectGraph) (dependent dependency : Nat) : ProjectGraph :=
  if dependency ∈ g.dependenciesAt dependent then g
  else
    match g.statusAt dependency with
    | some .failed | some .skipped =>
      (((g.link dependent dependency false).finish dependent .skipped).skipDependents
        dependent).updateFinished
    -- What has succeeded need not be waited for.
    | some .succeeded => g.link dependent dependency false
    | _ => g.link dependent dependency true

/-- Lets one project wait for another. -/
def addDependency (g : ProjectGraph) (dependent dependency : Path) :
    Except GraphError ProjectGraph := do
  let i ← g.index dependent
  let j ← g.index dependency
  -- Of a project that has started and would close a cycle, the start is reported.
  if g.statusAt i ≠ some .todo then .error (.alreadyStarted dependent)
  else if i = j ∨ g.dependsOn j i then .error (.cycle dependent dependency)
  else return g.connect i j

/-! ## Scheduling -/

/-- Hands out the first project that is ready. -/
def takeNext (g : ProjectGraph) : Option (BuildRequest × ProjectGraph) :=
  match g.nodes.findIdx? ProjectNode.isReady with
  | none => none
  | some i =>
    match g.nodes[i]? with
    | none => none
    | some n =>
      some (⟨n.project, n.environment.getD .empty⟩,
        -- The environment goes out with the project and is not kept.
        g.modifyAt i fun n => { n with status := .inFlight, environment := none })

/-- What a worker finds when it asks for a project. -/
inductive Offer where
  /-- A project to build. -/
  | build (request : BuildRequest)
  /-- Nothing is left to do. -/
  | leave
  /-- Others have to finish first. -/
  | wait
deriving DecidableEq, Repr

/-- Asks for a project. Once the build is cancelled nothing is handed out any more. -/
def poll (g : ProjectGraph) (cancelled : Bool) : Offer × ProjectGraph :=
  if cancelled then (.leave, g)
  else
    match g.takeNext with
    | some (request, g) => (.build request, g)
    | none =>
      if g.finished || g.finishedCount = g.nodes.length then (.leave, g) else (.wait, g)

/-- Takes a project from what its dependents wait for. -/
def release (g : ProjectGraph) (i : Nat) : ProjectGraph :=
  (g.dependentsAt i).foldl
    (fun g j => g.modifyAt j fun n => { n with outstanding := n.outstanding.filter (· ≠ i) }) g

/-- Reports that a project was built. -/
def markSucceeded (g : ProjectGraph) (file : Path) : Except GraphError ProjectGraph := do
  let i ← g.index file
  return ((g.finish i .succeeded).release i).updateFinished

/-- Reports that a project could not be built. -/
def markFailed (g : ProjectGraph) (file : Path) : Except GraphError ProjectGraph := do
  let i ← g.index file
  return ((g.finish i .failed).skipDependents i).updateFinished

/-! ## Reports -/

/-- The status of a project. -/
def status? (g : ProjectGraph) (file : Path) : Option ProjectStatus :=
  (g.index? file).bind g.statusAt

/-- The projects with a status, in the order of their registration. -/
def withStatus (g : ProjectGraph) (status : ProjectStatus) : List Path :=
  (g.nodes.filter fun n => n.status = status).map fun n => n.project.file

/-- The file of the project with a number. -/
def fileAt? (g : ProjectGraph) (i : Nat) : Option Path :=
  g.nodes[i]?.map fun n => n.project.file

/-- Every project with those it depends on, in the order of their registration. -/
def edges (g : ProjectGraph) : List (Path × List Path) :=
  g.nodes.map fun n => (n.project.file, n.dependencies.filterMap g.fileAt?)

end ProjectGraph

end BuildEngine
