import BuildEngine.Graph.Pool
import BuildEngine.Proofs.Graph.HandingOut
import BuildEngine.Proofs.Graph.Progress

/-!
# Several workers

Any number of workers share a graph. A step is one of three things a worker does with the graph:
an idle worker takes a project, a worker that is building reports how that ended, or an idle
worker leaves as nothing is left to do. The workers take their steps in any order.

`Crew.OnTrack` is what every step keeps: whoever is building has a project of its own that is in
flight, the builder was called once for each project that was started, and a status agrees with
how building the project ended.
-/

namespace BuildEngine

open Relation ProjectGraph

/-- How building a project ends. -/
inductive Ending where
  | succeeded
  | failed
  /-- The builder gave up with an error. -/
  | error (reason : String)
  /-- The builder was torn down in the middle. -/
  | panicked
deriving DecidableEq, Repr

/-- Whether a project was built; whatever else happens counts as a failure. -/
def Ending.isSuccess : Ending → Bool
  | succeeded => true
  | failed | error _ | panicked => false

/-- What a worker is doing. -/
inductive Worker where
  /-- It is about to ask for a project. -/
  | idle
  | building (request : BuildRequest)
  /-- It has left. -/
  | gone
deriving DecidableEq, Repr

/-- Workers that share a graph. -/
structure Crew where
  graph : ProjectGraph
  workers : List Worker
  /-- What the builder was called for, in order. -/
  built : List BuildRequest
deriving DecidableEq, Repr

namespace Crew

/-- Some workers who are about to begin. -/
def start (g : ProjectGraph) (count : Nat) : Crew :=
  ⟨g, List.replicate count .idle, []⟩

/-- One worker does something with the graph. To be told to wait changes nothing and is no step. -/
inductive Step (build : Project → Ending) : Crew → Crew → Prop
  | take {c : Crew} {w : Nat} {request : BuildRequest} {g : ProjectGraph} :
    c.workers[w]? = some .idle → c.graph.poll false = (.build request, g) →
      Step build c ⟨g, c.workers.set w (.building request), c.built ++ [request]⟩
  | report {c : Crew} {w : Nat} {request : BuildRequest} :
    c.workers[w]? = some (.building request) →
      Step build c
        ⟨Pool.report c.graph request.project.file (build request.project).isSuccess,
          c.workers.set w .idle, c.built⟩
  | leave {c : Crew} {w : Nat} {g : ProjectGraph} :
    c.workers[w]? = some .idle → c.graph.poll false = (.leave, g) →
      Step build c ⟨g, c.workers.set w .gone, c.built⟩

/-- The second crew comes of the first one by steps of its workers in some order. -/
def Runs (build : Project → Ending) : Crew → Crew → Prop :=
  ReflTransGen (Step build)

/-- All workers have left. -/
def Left (c : Crew) : Prop :=
  ∀ w ∈ c.workers, w = .gone

/-- The builder was called for these projects, in order. -/
def builtProjects (c : Crew) : List Project :=
  c.built.map BuildRequest.project

/-- A project that is taken is the last one that the builder is called for. -/
theorem builtProjects_take (c : Crew) (g : ProjectGraph) (workers : List Worker)
    (request : BuildRequest) :
    builtProjects ⟨g, workers, c.built ++ [request]⟩ = c.builtProjects ++ [request.project] := by
  simp [builtProjects]

/-- What holds at any time while a crew builds the projects of a graph. -/
structure OnTrack (build : Project → Ending) (g : ProjectGraph) (c : Crew) : Prop where
  /-- Every status is justified. -/
  sound : c.graph.Sound
  /-- Projects and edges stay as they are. -/
  shape : c.graph.shape = g.shape
  /-- What somebody is building is in flight. -/
  building : ∀ (w : Nat) (request : BuildRequest), c.workers[w]? = some (.building request) →
    ∃ i, g.projectAt? i = some request.project ∧ c.graph.statusAt i = some .inFlight
  /-- No two workers build the same project. -/
  apart : ∀ (w w' : Nat) (request request' : BuildRequest),
    c.workers[w]? = some (.building request) → c.workers[w']? = some (.building request') →
      request.project = request'.project → w = w'
  /-- The builder was called for what was started. -/
  built : ∀ i p, g.projectAt? i = some p → (p ∈ c.builtProjects ↔ c.graph.Started i)
  /-- The builder was never called twice for a project. -/
  once : c.builtProjects.Nodup
  /-- What has been built has the status that its building led to. -/
  ended : ∀ i p, g.projectAt? i = some p →
    (c.graph.statusAt i = some .succeeded → (build p).isSuccess = true) ∧
      (c.graph.statusAt i = some .failed → (build p).isSuccess = false)
  /-- Workers leave when all is finished. -/
  left : .gone ∈ c.workers → ∀ i, ¬ c.graph.Unfinished i

end Crew

/-! ## What a worker does to the graph -/

namespace ProjectGraph

variable {g g' : ProjectGraph} {i k : Nat} {request : BuildRequest}

/-- What a worker is offered to build is what the graph hands out. -/
theorem takeNext_of_poll (h : g.poll false = (.build request, g')) :
    g.takeNext = some (request, g') := by
  unfold poll at h
  cases htake : g.takeNext with
  | some result =>
    simp only [htake, Bool.false_eq_true, if_false, Prod.mk.injEq, Offer.build.injEq] at h
    rw [← h.1, ← h.2]
  | none =>
    simp only [htake, Bool.false_eq_true, if_false] at h
    split at h <;> cases h

/-- Who leaves does not change the graph. -/
theorem eq_of_poll_leave (h : g.poll false = (.leave, g')) : g' = g := by
  unfold poll at h
  cases htake : g.takeNext with
  | some result =>
    simp only [htake, Bool.false_eq_true, if_false, Prod.mk.injEq, reduceCtorEq, false_and] at h
  | none =>
    simp only [htake, Bool.false_eq_true, if_false] at h
    split at h <;> cases h
    rfl

/-- Lets a project that is being built end. -/
def conclude (g : ProjectGraph) (i : Nat) (succeeded : Bool) : ProjectGraph :=
  if succeeded then g.succeed i else g.giveUp i .failed

/-- A report lets the project of the file end. -/
theorem report_eq {file : Path} (hi : g.index? file = some i) (succeeded : Bool) :
    Pool.report g file succeeded = g.conclude i succeeded := by
  unfold Pool.report
  cases succeeded with
  | true => simp [conclude, markSucceeded_eq_ok_iff.2 ⟨i, hi, rfl⟩]
  | false => simp [conclude, markFailed_eq_ok_iff.2 ⟨i, hi, rfl⟩]

section Conclude

variable {succeeded : Bool}

/-- A graph stays sound when a project that is being built ends. -/
theorem Sound.conclude (h : g.Sound) (hi : g.statusAt i = some .inFlight) :
    (g.conclude i succeeded).Sound := by
  unfold ProjectGraph.conclude
  split
  · exact h.succeed hi
  · exact h.giveUp_failed hi

/-- The end of a project changes neither projects nor edges. -/
theorem shape_conclude (g : ProjectGraph) (i : Nat) (succeeded : Bool) :
    (g.conclude i succeeded).shape = g.shape := by
  unfold conclude
  split <;> simp

/-- A project that is being built ends as it is said to. -/
theorem statusAt_conclude_self (hi : g.statusAt i = some .inFlight) (succeeded : Bool) :
    (g.conclude i succeeded).statusAt i = some (if succeeded then .succeeded else .failed) := by
  unfold conclude
  cases succeeded with
  | true => exact (statusAt_succeed g i i).trans (statusAt_finish_self (.inr hi) _)
  | false => exact statusAt_giveUp_self (.inr hi) rfl

/-- The end of a project leaves the others as they are, or skips them if they wait. -/
theorem statusAt_conclude_of_ne (g : ProjectGraph) (succeeded : Bool) (hk : k ≠ i) :
    (g.conclude i succeeded).statusAt k = g.statusAt k ∨
      g.statusAt k = some .todo ∧ (g.conclude i succeeded).statusAt k = some .skipped := by
  unfold conclude
  cases succeeded with
  | true => exact .inl ((statusAt_succeed g i k).trans (statusAt_finish_of_ne hk _))
  | false =>
    by_cases hcut : (g.finish i .failed).CutOff [i] k
    · refine .inr ⟨(statusAt_finish_of_ne hk _).symm.trans hcut.statusAt, ?_⟩
      exact (statusAt_giveUp ..).trans (if_pos hcut)
    · exact .inl (statusAt_giveUp_of_not_cutOff hk hcut)

/-- What is being built while another project ends goes on being built. -/
theorem inFlight_conclude_iff (hk : k ≠ i) :
    (g.conclude i succeeded).statusAt k = some .inFlight ↔ g.statusAt k = some .inFlight := by
  rcases statusAt_conclude_of_ne g succeeded hk with heq | ⟨htodo, hskipped⟩
  · rw [heq]
  · simp [htodo, hskipped]

/-- The end of a project is the end of no other one. -/
theorem ended_conclude_iff (hk : k ≠ i) :
    (g.conclude i succeeded).Ended k ↔ g.Ended k := by
  rcases statusAt_conclude_of_ne g succeeded hk with heq | ⟨htodo, hskipped⟩
  · exact ended_congr heq
  · simp [Ended, htodo, hskipped]

/-- What still waits when a project ends waited before. -/
theorem keepsWaiting_conclude (g : ProjectGraph) (i : Nat) (succeeded : Bool) :
    g.KeepsWaiting (g.conclude i succeeded) := by
  unfold conclude
  split
  · exact keepsWaiting_succeed g i
  · exact keepsWaiting_giveUp g i rfl

/-- The end of a project starts nothing. -/
theorem started_conclude_iff (hi : g.statusAt i = some .inFlight) :
    (g.conclude i succeeded).Started k ↔ g.Started k := by
  by_cases hk : k = i
  · subst hk
    refine iff_of_true (.inr ?_) (.inl hi)
    rw [statusAt_conclude_self hi]
    cases succeeded <;> simp
  · exact or_congr (inFlight_conclude_iff hk) (ended_conclude_iff hk)

end Conclude

end ProjectGraph

/-! ## What every step keeps -/

namespace Crew

variable {build : Project → Ending} {g : ProjectGraph} {c c' : Crew}

/-- A crew does not change the projects. -/
theorem OnTrack.projectAt? (h : c.OnTrack build g) (i : Nat) :
    c.graph.projectAt? i = g.projectAt? i :=
  projectAt?_eq_of_shape h.shape i

/-- Projects with different numbers are different. -/
theorem OnTrack.eq_of_projectAt? (h : c.OnTrack build g) {i j : Nat} {p : Project}
    (hi : g.projectAt? i = some p) (hj : g.projectAt? j = some p) : i = j :=
  h.sound.distinct i j p p ((h.projectAt? i).trans hi) ((h.projectAt? j).trans hj)
    (Path.same_self _)

/-- Who is building after a worker did something is that worker, or was building before. -/
theorem building_of_set {w w' : Nat} {worker : Worker} {request : BuildRequest}
    (h : (c.workers.set w worker)[w']? = some (.building request)) :
    (w' = w ∧ worker = .building request) ∨
      (w' ≠ w ∧ c.workers[w']? = some (.building request)) := by
  rw [List.getElem?_set] at h
  by_cases hw : w = w'
  · rw [if_pos hw] at h
    split at h
    · exact .inl ⟨hw.symm, Option.some.inj h⟩
    · cases h
  · rw [if_neg hw] at h
    exact .inr ⟨Ne.symm hw, h⟩

/-- Nobody starts to build when a worker stops to. -/
theorem building_of_set_other {w w' : Nat} {worker : Worker} {request : BuildRequest}
    (hworker : ∀ request, worker ≠ .building request)
    (h : (c.workers.set w worker)[w']? = some (.building request)) :
    w' ≠ w ∧ c.workers[w']? = some (.building request) :=
  (building_of_set h).resolve_left fun hw => hworker request hw.2

/-- Nobody has begun. -/
theorem onTrack_start (hg : g.Consistent) (htodo : ∀ n ∈ g.nodes, n.status = .todo)
    (count : Nat) : (start g count).OnTrack build g := by
  have hidle {w : Nat} {worker : Worker} (hw : (start g count).workers[w]? = some worker) :
      worker = .idle :=
    List.eq_of_mem_replicate (List.mem_of_getElem? hw)
  -- Nobody builds, nothing was built, and no project has started or ended.
  refine ⟨hg.sound_of_todo htodo, rfl, fun w request hw => ?_, fun w _ request _ hw => ?_,
    fun i p hp => ?_, .nil, fun i p hp => ⟨fun hi => ?_, fun hi => ?_⟩, fun hgone => ?_⟩
  · cases hidle hw
  · cases hidle hw
  · refine iff_of_false List.not_mem_nil fun hi => ?_
    rcases hi with hi | hi | hi <;> cases eq_todo_of_statusAt htodo hi
  · cases eq_todo_of_statusAt htodo hi
  · cases eq_todo_of_statusAt htodo hi
  · cases List.eq_of_mem_replicate hgone

/-- Nobody is building a project that waits. -/
private theorem OnTrack.ne_of_todo {i w : Nat} {p : Project} {request : BuildRequest}
    (h : c.OnTrack build g) (hp : g.projectAt? i = some p)
    (htodo : c.graph.statusAt i = some .todo)
    (hw : c.workers[w]? = some (.building request)) : request.project ≠ p := by
  intro heq
  obtain ⟨k, hk, hinFlight⟩ := h.building w request hw
  rw [heq] at hk
  rw [h.eq_of_projectAt? hk hp, htodo] at hinFlight
  cases hinFlight

/-- A crew stays on track when a worker takes a project. -/
theorem OnTrack.take {w : Nat} {request : BuildRequest} {g' : ProjectGraph}
    (h : c.OnTrack build g) (hpoll : c.graph.poll false = (.build request, g')) :
    OnTrack build g ⟨g', c.workers.set w (.building request), c.built ++ [request]⟩ := by
  obtain ⟨i, n, hn, hready, -, rfl, rfl⟩ := takeNext_eq_some_iff.1 (takeNext_of_poll hpoll)
  have hlt := lt_length_of_statusAt hready.1
  have hi : g.projectAt? i = some n.project :=
    (h.projectAt? i).symm.trans (projectAt?_of_getElem? hn)
  have hself := statusAt_handOut_self hlt
  have hothers {k : Nat} (hk : k ≠ i) := statusAt_handOut_of_ne hlt hk
  refine ⟨h.sound.handOut hready, (shape_handOut ..).trans h.shape, fun w' request hw' => ?_,
    fun w' w'' request request' hw' hw'' heq => ?_, fun k p hp => ?_, ?_, fun k p hp => ?_,
    fun hgone => ?_⟩
  -- The worker took `i`; every other one builds what it built before.
  · rcases building_of_set hw' with ⟨-, heq⟩ | ⟨-, hw'⟩
    · cases heq
      exact ⟨i, hi, hself⟩
    · obtain ⟨k, hk, hinFlight⟩ := h.building w' request hw'
      have hki : k ≠ i := by
        rintro rfl
        rw [hready.1] at hinFlight
        cases hinFlight
      exact ⟨k, hk, (hothers hki).trans hinFlight⟩
  -- No other worker builds `i`, which waited until now.
  · rcases building_of_set hw' with ⟨hw', hrequest⟩ | ⟨-, hw'⟩ <;>
      rcases building_of_set hw'' with ⟨hw'', hrequest'⟩ | ⟨-, hw''⟩
    · rw [hw', hw'']
    · cases hrequest
      exact absurd heq.symm (h.ne_of_todo hi hready.1 hw'')
    · cases hrequest'
      exact absurd heq (h.ne_of_todo hi hready.1 hw')
    · exact h.apart w' w'' request request' hw' hw'' heq
  · rw [builtProjects_take, List.mem_append, List.mem_singleton, h.built k p hp]
    -- `i` has been started with this step; for the others nothing changes.
    by_cases hk : k = i
    · subst hk
      rw [hi, Option.some.injEq] at hp
      exact iff_of_true (.inr hp.symm) (.inl hself)
    · have hne : p ≠ n.project := fun heq => hk (h.eq_of_projectAt? (heq ▸ hp) hi)
      rw [or_iff_left hne]
      exact (started_congr (hothers hk)).symm
  · have hnew : n.project ∉ c.builtProjects := fun hmem =>
      ((h.built i _ hi).1 hmem).ne_todo hready.1
    rw [builtProjects_take, ← List.concat_eq_append]
    exact h.once.concat hnew
  · by_cases hk : k = i
    · subst hk
      constructor <;>
      · intro hend
        rw [hself] at hend
        cases hend
    · rw [hothers hk]
      exact h.ended k p hp
  · rcases List.mem_or_eq_of_mem_set hgone with hgone | hgone
    · exact absurd (.inl hready.1) (h.left hgone i)
    · cases hgone

/-- What somebody is building is found by its file. -/
theorem OnTrack.index?_building {w : Nat} {request : BuildRequest} (h : c.OnTrack build g)
    (hw : c.workers[w]? = some (.building request)) :
    ∃ i, c.graph.index? request.project.file = some i ∧ g.projectAt? i = some request.project ∧
      c.graph.statusAt i = some .inFlight := by
  obtain ⟨i, hi, hinFlight⟩ := h.building w request hw
  refine ⟨i, (h.sound.index?_eq_some_iff _).2 ⟨request.project, ?_, Path.same_self _⟩, hi,
    hinFlight⟩
  exact (h.projectAt? i).trans hi

/-- A crew stays on track when a worker reports what became of a project. -/
theorem OnTrack.report {w : Nat} {request : BuildRequest} (h : c.OnTrack build g)
    (hw : c.workers[w]? = some (.building request)) :
    OnTrack build g
      ⟨Pool.report c.graph request.project.file (build request.project).isSuccess,
        c.workers.set w .idle, c.built⟩ := by
  obtain ⟨i, hindex, hi, hinFlight⟩ := h.index?_building hw
  have hidle (request : BuildRequest) : Worker.idle ≠ .building request := nofun
  rw [report_eq hindex]
  refine ⟨h.sound.conclude hinFlight, (shape_conclude ..).trans h.shape,
    fun w' request' hw' => ?_, fun w' w'' request' request'' hw' hw'' heq => ?_, fun k p hp => ?_,
    h.once, fun k p hp => ?_, fun hgone => ?_⟩
  · obtain ⟨hne, hbusy⟩ := building_of_set_other hidle hw'
    obtain ⟨k, hk, hinFlight'⟩ := h.building w' request' hbusy
    -- The other worker is building another project.
    have hki : k ≠ i := by
      rintro rfl
      rw [hi, Option.some.injEq] at hk
      exact hne (h.apart w' w request' request hbusy hw hk.symm)
    exact ⟨k, hk, (inFlight_conclude_iff hki).2 hinFlight'⟩
  · exact h.apart w' w'' request' request'' (building_of_set_other hidle hw').2
      (building_of_set_other hidle hw'').2 heq
  · exact (h.built k p hp).trans (started_conclude_iff hinFlight).symm
  · by_cases hk : k = i
    · subst hk
      rw [hi, Option.some.injEq] at hp
      subst hp
      rw [statusAt_conclude_self hinFlight]
      cases (build request.project).isSuccess <;> simp
    · obtain ⟨hsucceeded, hfailed⟩ := h.ended k p hp
      rcases statusAt_conclude_of_ne c.graph (build request.project).isSuccess hk with
        heq | ⟨-, hskipped⟩
      · rw [heq]
        exact ⟨hsucceeded, hfailed⟩
      · rw [hskipped]
        exact ⟨nofun, nofun⟩
  · rcases List.mem_or_eq_of_mem_set hgone with hgone | hgone
    · exact absurd (.inr hinFlight) (h.left hgone i)
    · cases hgone

/-- A crew stays on track when a worker leaves. -/
theorem OnTrack.leave {w : Nat} {g' : ProjectGraph} (h : c.OnTrack build g)
    (hpoll : c.graph.poll false = (.leave, g')) :
    OnTrack build g ⟨g', c.workers.set w .gone, c.built⟩ := by
  have hall : ∀ i, ¬ c.graph.Unfinished i :=
    h.sound.poll_eq_leave_iff.1 (congrArg Prod.fst hpoll)
  have hgone (request : BuildRequest) : Worker.gone ≠ .building request := nofun
  rw [eq_of_poll_leave hpoll]
  refine ⟨h.sound, h.shape, fun w' request hw' => ?_,
    fun w' w'' request request' hw' hw'' heq => ?_, h.built, h.once, h.ended, fun _ => hall⟩
  · exact h.building w' request (building_of_set_other hgone hw').2
  · exact h.apart w' w'' request request' (building_of_set_other hgone hw').2
      (building_of_set_other hgone hw'').2 heq

/-- Every step keeps a crew on track. -/
theorem OnTrack.step (h : c.OnTrack build g) (hstep : Step build c c') : c'.OnTrack build g := by
  cases hstep with
  | take _ hpoll => exact h.take hpoll
  | report hw => exact h.report hw
  | leave _ hpoll => exact h.leave hpoll

/-- However the steps of the workers follow each other, a crew stays on track. -/
theorem OnTrack.runs (h : c.OnTrack build g) (hrun : Runs build c c') : c'.OnTrack build g := by
  induction hrun with
  | refl => exact h
  | tail _ hstep ih => exact ih.step hstep

/-- No worker joins a crew or is lost. -/
theorem Runs.length_workers (hrun : Runs build c c') :
    c'.workers.length = c.workers.length := by
  induction hrun with
  | refl => rfl
  | tail _ hstep ih => cases hstep <;> simpa using ih

end Crew

end BuildEngine
