import BuildEngine.Graph.Basic

/-!
# Building the projects of a graph

Workers take projects from a graph, build them and report how that ended, until nothing is left
to do or the build is cancelled. The result of a build does not depend on how many workers there
are, so the run below is that of a single one: as many turns as there are projects are enough,
because each project is handed out at most once.
-/

namespace BuildEngine

/-- How every project of a build ended. -/
structure BuildSummary where
  /-- The projects that were built. -/
  succeeded : List Path
  /-- The projects that could not be built. -/
  failed : List Path
  /-- The projects that depend on a failed one. -/
  skipped : List Path
  /-- The projects that were never finished because the build was cancelled. -/
  notStarted : List Path
  /-- Whether the build was cancelled. -/
  cancelled : Bool
deriving DecidableEq, Repr

namespace BuildSummary

/-- The summary of a graph whose workers have left. -/
def ofGraph (g : ProjectGraph) (cancelled : Bool) : BuildSummary :=
  { succeeded := g.withStatus .succeeded
    failed := g.withStatus .failed
    skipped := g.withStatus .skipped
    notStarted := g.withStatus .todo ++ g.withStatus .inFlight
    cancelled }

/-- Whether everything was built. -/
def isSuccess (s : BuildSummary) : Bool :=
  !s.cancelled && s.failed.isEmpty && s.skipped.isEmpty && s.notStarted.isEmpty

end BuildSummary

/-- What builds projects: a change of a state that also tells whether the build is cancelled. -/
structure Builder (σ : Type) where
  /-- Builds a project and tells whether that succeeded. -/
  build : BuildRequest → σ → Bool × σ
  /-- Whether the build is cancelled. -/
  isCancelled : σ → Bool

namespace Pool

/-- Reports how a project ended; the project is one that the graph handed out. -/
def report (g : ProjectGraph) (file : Path) (succeeded : Bool) : ProjectGraph :=
  match if succeeded then g.markSucceeded file else g.markFailed file with
  | .ok g => g
  | .error _ => g

/-- Builds projects one after the other, at most the given number. -/
def turns {σ : Type} (b : Builder σ) : (count : Nat) → ProjectGraph → σ → ProjectGraph × σ
  | 0, g, s => (g, s)
  | count + 1, g, s =>
    match g.poll (b.isCancelled s) with
    | (.build request, g) =>
      let (succeeded, s) := b.build request s
      turns b count (report g request.project.file succeeded) s
    | (_, g) => (g, s)

/-- Builds the projects of a graph until nothing is left to do or the build is cancelled. -/
def run {σ : Type} (b : Builder σ) (g : ProjectGraph) (s : σ) : ProjectGraph × σ :=
  turns b g.nodes.length g s

/-- The summary of a run that left a graph and a state. -/
def summary {σ : Type} (b : Builder σ) (result : ProjectGraph × σ) : BuildSummary :=
  .ofGraph result.1 (b.isCancelled result.2)

end Pool

end BuildEngine
