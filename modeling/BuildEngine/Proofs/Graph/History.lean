import BuildEngine.Proofs.Graph.Consistency

/-!
# Histories of a graph

A history is what has been asked of a graph since it was empty, with the answers. It goes on by
one operation at a time, in any order: projects and dependencies may be added while others are
being built. What may be reported is a parameter of `Continues`, because some facts hold whatever
is reported and others only if reports are about projects that were handed out:

* `anyReport`: reports about anything, also about what was never handed out;
* `inFlightReport`: reports about projects that are being built;
* `awaitedReport`: reports about projects that were handed out and not reported since, told from
  the history alone.

`perform_performs` says once what an operation does; every invariant of histories starts from it.
-/

namespace BuildEngine

/-- Something that is asked of a graph. -/
inductive Operation where
  /-- Registers a project. -/
  | add (project : Project) (environment : Environment)
  /-- Lets the first project wait for the second one. -/
  | addDependency (dependent dependency : Path)
  /-- Asks for a project to build. -/
  | takeNext
  /-- Reports that a project was built. -/
  | markSucceeded (file : Path)
  /-- Reports that a project could not be built. -/
  | markFailed (file : Path)
deriving DecidableEq, Repr

/-- What a graph answers. -/
inductive Answer where
  | done
  /-- A project is handed out. -/
  | handedOut (request : BuildRequest)
  /-- No project can be handed out. -/
  | nothing
  | refused (reason : GraphError)
deriving DecidableEq, Repr

/-- The file that an operation reports about. -/
def Operation.reportOn? : Operation → Option Path
  | markSucceeded file | markFailed file => some file
  | add .. | addDependency .. | takeNext => none

namespace ProjectGraph

/-- The answer to a change. A change that is refused leaves the graph as it is. -/
def settle (g : ProjectGraph) : Except GraphError ProjectGraph → Answer × ProjectGraph
  | .ok g' => (.done, g')
  | .error reason => (.refused reason, g)

/-- The answer to an operation, and the graph after it. -/
def perform (g : ProjectGraph) : Operation → Answer × ProjectGraph
  | .add project environment => g.settle (g.add project environment)
  | .addDependency dependent dependency => g.settle (g.addDependency dependent dependency)
  | .takeNext =>
    match g.takeNext with
    | some (request, g') => (.handedOut request, g')
    | none => (.nothing, g)
  | .markSucceeded file => g.settle (g.markSucceeded file)
  | .markFailed file => g.settle (g.markFailed file)

end ProjectGraph

/-- What has been asked of a graph since it was empty. -/
structure History where
  /-- The operations with their answers, in order. -/
  entries : List (Operation × Answer)
  /-- The graph after them. -/
  graph : ProjectGraph
deriving DecidableEq, Repr

namespace History

/-- The history of the empty graph. -/
def start : History :=
  ⟨[], .empty⟩

/-- The history after one more operation. -/
def next (h : History) (op : Operation) : History :=
  ⟨h.entries ++ [(op, (h.graph.perform op).1)], (h.graph.perform op).2⟩

/-- The projects that were registered, with their environments, in order. -/
def registered (h : History) : List BuildRequest :=
  h.entries.filterMap fun
    | (.add project environment, .done) => some ⟨project, environment⟩
    | _ => none

/-- The projects that were handed out, in order. -/
def handedOut (h : History) : List BuildRequest :=
  h.entries.filterMap fun
    | (_, .handedOut request) => some request
    | _ => none

/-- The files of the projects that were reported about, in order. -/
def reported (h : History) : List Path :=
  h.entries.filterMap fun
    | (op, .done) => op.reportOn?
    | _ => none

/-- Anything may be reported. -/
def anyReport (_ : History) (_ : Path) : Prop :=
  True

/-- Projects that are being built may be reported. -/
def inFlightReport (h : History) (file : Path) : Prop :=
  h.graph.status? file = some .inFlight

/-- Projects that were handed out and not reported since may be reported. -/
def awaitedReport (h : History) (file : Path) : Prop :=
  (∃ request ∈ h.handedOut, request.project.file.same file = true) ∧
    ∀ file' ∈ h.reported, file'.same file = false

/-- The second history goes on from the first one, with reports that are allowed when made. -/
inductive Continues (allowed : History → Path → Prop) (h : History) : History → Prop
  | refl : Continues allowed h h
  | next {h' : History} (op : Operation) :
    Continues allowed h h' → (∀ file, op.reportOn? = some file → allowed h' file) →
      Continues allowed h (h'.next op)

end History

namespace ProjectGraph

open Relation

variable {g g' : ProjectGraph} {i j : Nat}

/-- What an operation does: the condition under which it is not refused, the answer, and the graph
after it. -/
inductive Performs (g : ProjectGraph) : Operation → Answer → ProjectGraph → Prop
  | refused {op : Operation} {reason : GraphError} : Performs g op (.refused reason) g
  | add {project : Project} {environment : Environment} :
    g.index? project.file = none →
      Performs g (.add project environment) .done (g.register project environment)
  | addDependency {dependent dependency : Path} {i j : Nat} :
    g.index? dependent = some i → g.index? dependency = some j → g.statusAt i = some .todo →
      ¬ ReflTransGen g.Needs j i →
        Performs g (.addDependency dependent dependency) .done (g.connect i j)
  | nothing : (∀ i, ¬ g.Ready i) → Performs g .takeNext .nothing g
  | takeNext {i : Nat} {n : ProjectNode} :
    g.nodes[i]? = some n → g.Ready i → (∀ k < i, ¬ g.Ready k) →
      Performs g .takeNext (.handedOut ⟨n.project, n.environment.getD .empty⟩) (g.handOut i)
  | markSucceeded {file : Path} {i : Nat} :
    g.index? file = some i → Performs g (.markSucceeded file) .done (g.succeed i)
  | markFailed {file : Path} {i : Nat} :
    g.index? file = some i → Performs g (.markFailed file) .done (g.giveUp i .failed)

/-- Every operation does one of these things. -/
theorem perform_performs (g : ProjectGraph) (op : Operation) :
    g.Performs op (g.perform op).1 (g.perform op).2 := by
  -- Each operation and each of its answers, read off the inversion lemma of the operation.
  cases op with
  | add project environment =>
    cases hadd : g.add project environment with
    | error reason => simpa [perform, settle, hadd] using Performs.refused
    | ok g' =>
      obtain ⟨hnew, rfl⟩ := add_eq_ok_iff.1 hadd
      simpa [perform, settle, hadd] using Performs.add hnew
  | addDependency dependent dependency =>
    cases hadd : g.addDependency dependent dependency with
    | error reason => simpa [perform, settle, hadd] using Performs.refused
    | ok g' =>
      obtain ⟨i, j, hi, hj, htodo, hacyclic, rfl⟩ := addDependency_eq_ok_iff.1 hadd
      simpa [perform, settle, hadd] using Performs.addDependency hi hj htodo hacyclic
  | takeNext =>
    cases htake : g.takeNext with
    | none => simpa [perform, htake] using Performs.nothing (takeNext_eq_none_iff.1 htake)
    | some result =>
      obtain ⟨i, n, hn, hready, hfirst, hrequest, hg'⟩ := takeNext_eq_some_iff.1 htake
      simpa [perform, htake, hrequest, hg'] using Performs.takeNext hn hready hfirst
  | markSucceeded file =>
    cases hmark : g.markSucceeded file with
    | error reason => simpa [perform, settle, hmark] using Performs.refused
    | ok g' =>
      obtain ⟨i, hi, rfl⟩ := markSucceeded_eq_ok_iff.1 hmark
      simpa [perform, settle, hmark] using Performs.markSucceeded hi
  | markFailed file =>
    cases hmark : g.markFailed file with
    | error reason => simpa [perform, settle, hmark] using Performs.refused
    | ok g' =>
      obtain ⟨i, hi, rfl⟩ := markFailed_eq_ok_iff.1 hmark
      simpa [perform, settle, hmark] using Performs.markFailed hi

/-- Every operation keeps a graph consistent, also a report about something never handed out. -/
theorem Consistent.performs {op : Operation} {answer : Answer} (h : g.Consistent)
    (hop : g.Performs op answer g') : g'.Consistent := by
  cases hop with
  | refused => exact h
  | add hnew => exact h.register hnew _
  | addDependency hi hj htodo hacyclic =>
    exact h.connect (lt_length_of_index? hi) (lt_length_of_index? hj) hacyclic
  | nothing _ => exact h
  | takeNext hn hready hfirst => exact h.handOut hready.1
  | markSucceeded hi => exact h.succeed (lt_length_of_index? hi)
  | markFailed hi => exact h.giveUp (lt_length_of_index? hi) rfl

end ProjectGraph

namespace History

variable {allowed : History → Path → Prop} {h h' h'' : History}

/-- A history may always go on by something that is not a report. -/
theorem Continues.quiet {op : Operation} (hh : Continues allowed h h')
    (hop : op.reportOn? = none) : Continues allowed h (h'.next op) :=
  hh.next op fun file hfile => by simp [hop] at hfile

/-- What goes on from a later history goes on from the earlier. -/
theorem Continues.trans (hh : Continues allowed h h') (hh' : Continues allowed h' h'') :
    Continues allowed h h'' := by
  induction hh' with
  | refl => exact hh
  | next op _ hreport ih => exact ih.next op hreport

/-- What an operation keeps as long as its reports are allowed, a history keeps. -/
theorem Continues.invariant {P : History → Prop}
    (hstep : ∀ h op, (∀ file, Operation.reportOn? op = some file → allowed h file) → P h →
      P (h.next op))
    (hh : Continues allowed h h') (hP : P h) : P h' := by
  induction hh with
  | refl => exact hP
  | next op _ hreport ih => exact hstep _ op hreport ih

/-- Every graph with a history is consistent. -/
theorem Continues.consistent (hh : Continues allowed start h) : h.graph.Consistent :=
  hh.invariant (P := fun h => h.graph.Consistent)
    (fun h op _ hc => hc.performs (h.graph.perform_performs op))
    ProjectGraph.consistent_empty

/-- What every operation keeps of a consistent graph, a history keeps. -/
theorem Continues.graph_invariant {P : ProjectGraph → Prop}
    (hstep : ∀ g g' op answer, g.Consistent → P g → g.Performs op answer g' → P g')
    (hh : Continues allowed h h') (hconsistent : h.graph.Consistent) (hP : P h.graph) :
    P h'.graph := by
  have hboth : h'.graph.Consistent ∧ P h'.graph :=
    hh.invariant (P := fun h => h.graph.Consistent ∧ P h.graph)
      (fun h op _ ⟨hg, hP⟩ =>
        ⟨hg.performs (h.graph.perform_performs op),
          hstep _ _ _ _ hg hP (h.graph.perform_performs op)⟩)
      ⟨hconsistent, hP⟩
  exact hboth.2

/-! ## A history of two projects -/

/-- A project file that says nothing. -/
def bareProject (file : String) : Project :=
  ⟨⟨file⟩, none, [], [], []⟩

/-- Two projects are registered, and the first one is told to wait for the second one. -/
def appOnLib : History :=
  ((start.next (.add (bareProject "/app") .empty)).next (.add (bareProject "/lib") .empty)).next
    (.addDependency ⟨"/app"⟩ ⟨"/lib"⟩)

/-- The graph of two projects of which the first one waits for the second one. -/
def appOnLibGraph : ProjectGraph where
  nodes :=
    [⟨bareProject "/app", some .empty, .todo, [1], [1], []⟩,
      ⟨bareProject "/lib", some .empty, .todo, [], [], [0]⟩]
  finishedCount := 0
  finished := false

/-- Each of the three operations is done. -/
theorem appOnLib_eq : appOnLib =
    ⟨[(.add (bareProject "/app") .empty, .done), (.add (bareProject "/lib") .empty, .done),
      (.addDependency ⟨"/app"⟩ ⟨"/lib"⟩, .done)], appOnLibGraph⟩ := by
  let registered : ProjectGraph :=
    ⟨[⟨bareProject "/app", some .empty, .todo, [], [], []⟩,
      ⟨bareProject "/lib", some .empty, .todo, [], [], []⟩], 0, false⟩
  have hregistered : (start.next (.add (bareProject "/app") .empty)).next
      (.add (bareProject "/lib") .empty) =
        ⟨[(.add (bareProject "/app") .empty, .done), (.add (bareProject "/lib") .empty, .done)],
          registered⟩ := rfl
  -- `lib` needs nothing, so no path leads from it to `app`.
  have hlink : registered.addDependency ⟨"/app"⟩ ⟨"/lib"⟩ = .ok appOnLibGraph :=
    ProjectGraph.addDependency_eq_ok_iff.2 ⟨0, 1, by decide, by decide, rfl,
      ProjectGraph.not_reflTransGen_needs rfl (by decide), rfl⟩
  rw [appOnLib, hregistered, next]
  simp only [ProjectGraph.perform, hlink, ProjectGraph.settle, List.cons_append, List.nil_append]

/-- Nothing is reported. -/
theorem continues_appOnLib (allowed : History → Path → Prop) :
    Continues allowed start appOnLib :=
  Continues.refl.quiet rfl |>.quiet rfl |>.quiet rfl

end History

end BuildEngine
