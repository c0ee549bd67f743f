import BuildEngine.Graph.Discovery
import BuildEngine.Proofs.FileSystem.Counting
import BuildEngine.Proofs.Graph.BreadthFirst
import BuildEngine.Proofs.Project.Loading

/-!
# Waves are breadth-first

Discovery in waves loads projects in breadth-first order: it finds what loading them one after the
other in that order finds, up to the first that fails (`LoadsWaves.map_loaded`). No path is loaded
twice, and what is loaded was read, whatever a cache holds (`State.HasDone`), so there are no more
waves than the files allow (`exists_loadsWaves_of_load`).
-/

namespace BuildEngine.Discovery

variable {s : Source} {cache : Option ProjectCache} {current p q : Path} {l : LoadedProject}
  {seen ps qs xs ys done order wave : List Path} {next : Path → List Path}

/-! ## New paths -/

/-- What is fresh has been seen then. -/
theorem fresh_snd (seen ps : List Path) : (fresh seen ps).2 = seen ++ (fresh seen ps).1 := by
  induction ps generalizing seen with
  | nil => exact (List.append_nil seen).symm
  | cons p ps ih =>
    rw [fresh]
    split
    · exact ih seen
    · rw [ih, List.append_assoc, List.singleton_append]

/-- What is fresh among more paths is told by what has been seen before each. -/
theorem fresh_append (seen ps qs : List Path) :
    (fresh seen (ps ++ qs)).1 =
      (fresh seen ps).1 ++ (fresh (seen ++ (fresh seen ps).1) qs).1 := by
  induction ps generalizing seen with
  | nil => simp [fresh]
  | cons p ps ih =>
    rw [List.cons_append, fresh, fresh]
    split
    · exact ih seen
    · simp [ih]

/-- New paths are different from each other, and were not seen. -/
theorem nodup_fresh (seen ps : List Path) :
    (fresh seen ps).1.Nodup ∧ ∀ p ∈ (fresh seen ps).1, p ∉ seen := by
  -- On the list: a path seen before is left out, a new one is remembered for those behind it.
  induction ps generalizing seen with
  | nil => exact ⟨.nil, by simp [fresh]⟩
  | cons p ps ih =>
    rw [fresh]
    split
    · exact ih seen
    · next hp =>
      obtain ⟨hnodup, hnew⟩ := ih (seen ++ [p])
      have hself : p ∉ seen := fun h => hp (List.any_eq_true.2 ⟨p, h, decide_eq_true rfl⟩)
      refine ⟨List.nodup_cons.2 ⟨fun h => hnew p h (by simp), hnodup⟩, ?_⟩
      rw [List.forall_mem_cons]
      exact ⟨hself, fun q hq h => hnew q hq (List.mem_append_left _ h)⟩

/-- What is fresh is one of the paths. -/
theorem mem_of_mem_fresh (h : p ∈ (fresh seen ps).1) : p ∈ ps := by
  induction ps generalizing seen with
  | nil => exact h
  | cons q ps ih =>
    rw [fresh] at h
    split at h
    · exact List.mem_cons_of_mem _ (ih h)
    · rcases List.mem_cons.1 h with rfl | h
      · exact List.mem_cons_self
      · exact List.mem_cons_of_mem _ (ih h)

/-- Among normal paths the same is the equal one. -/
theorem includes_iff (hseen : ∀ q ∈ seen, q.IsNormal) (hp : p.IsNormal) :
    includes seen p = true ↔ p ∈ seen := by
  unfold includes
  rw [List.any_eq_true]
  constructor
  · rintro ⟨q, hq, hsame⟩
    rwa [← Path.eq_of_same (hseen q hq) hp hsame]
  · exact fun h => ⟨p, h, decide_eq_true rfl⟩

/-- Normal paths are new if they are not among those that were seen. -/
theorem fresh_fst (hseen : ∀ q ∈ seen, q.IsNormal) (hps : ∀ q ∈ ps, q.IsNormal) :
    (fresh seen ps).1 = (ps.filter (· ∉ seen)).eraseDups := by
  -- On the list. Among normal paths to be the same path is to be equal, which turns the scan into
  -- `eraseDups`.
  induction ps generalizing seen with
  | nil => rfl
  | cons p ps ih =>
    rw [List.forall_mem_cons] at hps
    rw [fresh]
    by_cases hp : p ∈ seen
    · rw [if_pos ((includes_iff hseen hps.1).2 hp), List.filter_cons_of_neg (by simpa using hp)]
      exact ih hseen hps.2
    · have hseen' : ∀ q ∈ seen ++ [p], q.IsNormal :=
        List.forall_mem_append.2 ⟨hseen, by simpa using hps.1⟩
      rw [if_neg (mt (includes_iff hseen hps.1).1 hp), List.filter_cons_of_pos (by simpa using hp),
        List.eraseDups_cons, List.filter_filter]
      dsimp only
      rw [ih hseen' hps.2]
      congr 3
      funext q
      by_cases hq : q = p <;> simp [hq]

/-- Where nothing has been seen, everything is fresh once. -/
theorem fresh_nil (hps : ∀ q ∈ ps, q.IsNormal) : (fresh [] ps).1 = ps.eraseDups := by
  rw [fresh_fst (by simp) hps]
  simp

/-- Where nothing is repeated, nothing is left out. -/
theorem eraseDups_of_nodup (h : ps.Nodup) : ps.eraseDups = ps := by
  induction ps with
  | nil => rfl
  | cons p ps ih =>
    obtain ⟨hp, hps⟩ := List.nodup_cons.1 h
    have hfilter : ps.filter (fun q => !q == p) = ps := by
      rw [List.filter_eq_self]
      intro q hq
      have hne : q ≠ p := by
        rintro rfl
        exact hp hq
      simpa using hne
    rw [List.eraseDups_cons, hfilter, ih hps]

/-- Different normal paths are fresh if they have not been seen. -/
theorem fresh_fst_of_nodup (hseen : ∀ q ∈ seen, q.IsNormal) (hps : ∀ q ∈ ps, q.IsNormal)
    (hnodup : ps.Nodup) : (fresh seen ps).1 = ps.filter (· ∉ seen) := by
  rw [fresh_fst hseen hps, eraseDups_of_nodup (hnodup.filter _)]

/-- To be done with all that a queue starts with is to go on with what these lead to. -/
theorem breadthFirst_wave_iff (hnodup : ∀ p, (next p).Nodup)
    (hnext : ∀ p, p.IsNormal → ∀ q ∈ next p, q.IsNormal)
    (hknown : ∀ p ∈ done ++ (xs ++ ys), p.IsNormal) :
    BreadthFirst next done (xs ++ ys) order ↔
      BreadthFirst next (done ++ xs)
        (ys ++ (fresh (done ++ (xs ++ ys)) (xs.flatMap next)).1) order := by
  -- What `x` leads to is put behind `ys`, where the rest of the wave does not look.
  induction xs generalizing done ys with
  | nil => simp [fresh]
  | cons x xs ih =>
    have hx : ∀ q ∈ next x, q.IsNormal := hnext x (hknown x (by simp))
    rw [List.cons_append] at hknown
    have hstep := forall_mem_append_filter hx hknown
    rw [← done_append_queue, List.append_assoc xs] at hstep
    rw [List.cons_append, breadthFirst_cons_iff, List.append_assoc xs, ih hstep,
      List.flatMap_cons, fresh_append, fresh_fst_of_nodup hknown hx (hnodup x)]
    simp only [List.append_assoc, List.cons_append, List.nil_append]

/-! ## Single projects -/

/-- The project at a path with its environment and what it refers to. -/
def Source.loadAt (s : Source) (p : Path) : Except DiscoveryError LoadedProject :=
  evaluateLoaded s (Project.load s.files p)

/-- What the project at a path refers to, as seen from its directory, each once. Where nothing can
be loaded there is nothing. -/
def Source.references (s : Source) (p : Path) : List Path :=
  match s.loadAt p with
  | .ok l =>
    ((l.environment.items referenceType).map fun i =>
      l.project.directory.absolutize ⟨i.identity⟩).eraseDups
  | .error _ => []

/-- A project that was evaluated had been loaded, and its references are those of its environment.
-/
theorem loaded_of_evaluateLoaded {loaded : Except LoadError Project}
    (h : evaluateLoaded s loaded = .ok l) :
    loaded = .ok l.project ∧ l.references = references l.project l.environment := by
  obtain ⟨project, hproject, h⟩ := exists_of_bind_eq_ok h
  obtain ⟨environment, -, h⟩ := exists_of_bind_eq_ok h
  cases h
  exact ⟨mapError_eq_ok_iff.1 hproject, rfl⟩

/-- What is loaded at a path is the project of its file, with its references. -/
theorem load_of_loadAt (h : s.loadAt p = .ok l) :
    Project.load s.files p = .ok l.project ∧
      l.references = references l.project l.environment :=
  loaded_of_evaluateLoaded h

/-- A path refers to what its project does. -/
theorem references_of_loadAt (h : s.loadAt p = .ok l) : s.references p = l.references := by
  rw [Source.references, h, (load_of_loadAt h).2, references, fresh_nil]
  intro q hq
  obtain ⟨item, -, rfl⟩ := List.mem_map.1 hq
  exact Path.isNormal_absolutize _ _

/-- The project at a normal path has that path for its file. -/
theorem file_of_loadAt (hp : p.IsNormal) (h : s.loadAt p = .ok l) : l.project.file = p :=
  (Project.file_of_load (load_of_loadAt h).1).trans hp

/-- A path refers to everything once. -/
theorem nodup_references (s : Source) (p : Path) : (s.references p).Nodup := by
  cases h : s.loadAt p with
  | error e => simp [Source.references, h]
  | ok l =>
    rw [references_of_loadAt h, (load_of_loadAt h).2]
    exact (nodup_fresh [] _).1

/-- Only what can be loaded refers to anything. -/
theorem exists_loadAt_of_mem_references (hq : q ∈ s.references p) : ∃ l, s.loadAt p = .ok l := by
  cases h : s.loadAt p with
  | ok l => exact ⟨l, rfl⟩
  | error e => simp [Source.references, h] at hq

/-- What was loaded for a path: a project with the path for its file, which was read, and what that
project refers to. -/
structure Source.Loads (s : Source) (p : Path) (l : LoadedProject) : Prop where
  file : l.project.file.same p = true
  readable : ∃ text, s.files.readText p = .ok text
  references : l.references = Discovery.references l.project l.environment

/-- Whatever a cache holds, what is loaded for a path belongs to it. -/
theorem loads_of_loadOne (hp : p.IsNormal) (h : (loadOne s cache p).1 = .ok l) : s.Loads p l := by
  obtain ⟨hload, hreferences⟩ := loaded_of_evaluateLoaded h
  have hfile : l.project.file.same p.normalize = true ∧
      ∃ text, s.files.readText p.normalize = .ok text := by
    cases cache with
    | none =>
      refine ⟨?_, Project.exists_readText_of_load hload⟩
      rw [Project.file_of_load hload]
      exact Path.same_self _
    | some c => exact ProjectCache.file_of_load hload
  rw [hp] at hfile
  exact ⟨hfile.1, hfile.2, hreferences⟩

/-- What is loaded at a path belongs to it. -/
theorem loads_of_loadAt (hp : p.IsNormal) (h : s.loadAt p = .ok l) : s.Loads p l := by
  have hnone : (loadOne s none p).1 = .ok l := h
  exact loads_of_loadOne hp hnone

namespace Source.Loads

/-- What a project refers to is seen from its directory. -/
theorem exists_absolutize (h : s.Loads p l) (hq : q ∈ l.references) :
    ∃ target, q = l.project.directory.absolutize target := by
  rw [h.references] at hq
  obtain ⟨item, -, rfl⟩ := List.mem_map.1 (mem_of_mem_fresh hq)
  exact ⟨_, rfl⟩

/-- From paths that a file system keeps apart, references lead to such paths. -/
theorem proper (h : s.Loads p l) (hp : s.files.Proper p) :
    ∀ q ∈ l.references, s.files.Proper q := by
  intro q hq
  obtain ⟨target, rfl⟩ := h.exists_absolutize hq
  refine ⟨Path.isNormal_absolutize _ _, fun d hd => ?_⟩
  refine Path.isAbsolute_absolutize ?_ target
  -- The root is no file, so there is a directory above every project.
  have habsolute := hp.2 d hd
  obtain ⟨text, htext⟩ := h.readable
  rw [hd] at htext
  have hcomponents := Path.same_iff.1 h.file
  have hfile : l.project.file.isAbsolute = true := by
    rw [Path.isAbsolute_iff, hcomponents, ← Path.isAbsolute_iff]
    exact habsolute
  rw [Project.directory]
  rcases Path.parent?_of_isAbsolute hfile with hroot | ⟨parent, hparent, habove⟩
  · exact absurd (hcomponents ▸ hroot) (FileSystem.components_ne_root hp.1 habsolute htext)
  · rwa [hparent]

end Source.Loads

/-- References are normal. -/
theorem isNormal_references (s : Source) (p : Path) : ∀ q ∈ s.references p, q.IsNormal := by
  intro q hq
  obtain ⟨l, hl⟩ := exists_loadAt_of_mem_references hq
  rw [references_of_loadAt hl, (load_of_loadAt hl).2] at hq
  obtain ⟨item, -, rfl⟩ := List.mem_map.1 (mem_of_mem_fresh hq)
  exact Path.isNormal_absolutize _ _

/-- References from paths that are kept apart are kept apart. -/
theorem proper_references (hp : s.files.Proper p) : ∀ q ∈ s.references p, s.files.Proper q := by
  intro q hq
  obtain ⟨l, hl⟩ := exists_loadAt_of_mem_references hq
  rw [references_of_loadAt hl] at hq
  exact (loads_of_loadAt hp.1 hl).proper hp q hq

/-- No more projects can be loaded than files are stored. -/
theorem length_le_of_loadAt (hnodup : ps.Nodup)
    (h : ∀ p ∈ ps, s.files.Proper p ∧ ∃ l, s.loadAt p = .ok l) :
    ps.length ≤ s.files.storedCount := by
  refine FileSystem.length_le_storedCount hnodup fun p hp => ?_
  obtain ⟨hproper, l, hl⟩ := h p hp
  exact ⟨hproper, (loads_of_loadAt hproper.1 hl).readable⟩

/-- Entries are kept apart when they are seen from the current directory. -/
theorem proper_absolutize (hcurrent : s.files.currentDirectory = .ok current) (p : Path) :
    s.files.Proper (current.absolutize p) := by
  refine ⟨Path.isNormal_absolutize current p, fun d hd => ?_⟩
  rw [hd] at hcurrent
  cases hcurrent
  exact Path.isAbsolute_absolutize (Path.isAbsolute_join (by decide) d.current) p

/-! ## Caches -/

/-- There is no cache, or one that makes no difference. -/
def Transparent (cache : Option ProjectCache) (files : FileSystem) : Prop :=
  ∀ c, cache = some c → c.Faithful files

/-- Without a cache there is none that could make a difference. -/
theorem transparent_none (files : FileSystem) : Transparent none files := by
  rintro c ⟨⟩

/-- Through a cache that makes no difference a path is loaded as without it. -/
theorem Transparent.loadOne_fst (h : Transparent cache s.files) (p : Path) :
    (loadOne s cache p).1 = s.loadAt p := by
  cases cache with
  | none => rfl
  | some c =>
    rw [Source.loadAt, ← (h c rfl).load_fst]
    rfl

/-- A cache that makes no difference makes none after a path is loaded through it. -/
theorem Transparent.loadOne_snd (h : Transparent cache s.files) (p : Path) :
    Transparent (loadOne s cache p).2 s.files := by
  cases cache with
  | none => exact h
  | some c =>
    rintro c' ⟨⟩
    exact (h c rfl).load p

/-- Through a cache that makes no difference a wave is loaded path by path, and the cache still
makes none. -/
theorem Transparent.loadWave (h : Transparent cache s.files) (wave : List Path) :
    (loadWave s cache wave).1 = wave.map s.loadAt ∧
      Transparent (loadWave s cache wave).2 s.files := by
  induction wave generalizing cache with
  | nil => exact ⟨rfl, h⟩
  | cons p wave ih =>
    obtain ⟨hfst, hsnd⟩ := ih (h.loadOne_snd p)
    refine ⟨?_, hsnd⟩
    rw [List.map_cons, ← h.loadOne_fst p, ← hfst]
    rfl

/-! ## Waves -/

/-- Every result of a wave was loaded for a path of it, through some cache. -/
theorem exists_of_mem_loadWave {result : Except DiscoveryError LoadedProject}
    (h : result ∈ (loadWave s cache wave).1) :
    ∃ p ∈ wave, ∃ cache, (loadOne s cache p).1 = result := by
  induction wave generalizing cache with
  | nil => cases h
  | cons p wave ih =>
    rcases List.mem_cons.1 h with rfl | h
    · exact ⟨p, List.mem_cons_self, cache, rfl⟩
    · obtain ⟨q, hq, hresult⟩ := ih h
      exact ⟨q, List.mem_cons_of_mem p hq, hresult⟩

/-- Every path of a wave has a result, through some cache. -/
theorem exists_mem_loadWave (h : p ∈ wave) :
    ∃ cache', (loadOne s cache' p).1 ∈ (loadWave s cache wave).1 := by
  induction wave generalizing cache with
  | nil => cases h
  | cons q wave ih =>
    rcases List.mem_cons.1 h with rfl | h
    · exact ⟨cache, List.mem_cons_self⟩
    · obtain ⟨cache', hmem⟩ := ih h
      exact ⟨cache', List.mem_cons_of_mem _ hmem⟩

section Wave

variable {results : List LoadedProject} (hnormal : ∀ p ∈ wave, p.IsNormal)
  (h : (loadWave s cache wave).1.mapM id = .ok results)

include hnormal h

/-- What a wave loads belongs to its paths. -/
theorem exists_loads_of_mem_results (hl : l ∈ results) : ∃ p ∈ wave, s.Loads p l := by
  obtain ⟨result, hmem, hresult⟩ := exists_of_mem_mapM h hl
  obtain ⟨p, hp, cache, heq⟩ := exists_of_mem_loadWave hmem
  exact ⟨p, hp, loads_of_loadOne (hnormal p hp) (heq.trans hresult)⟩

/-- In a wave that is loaded every path is loaded. -/
theorem exists_loads_of_mem_wave (hp : p ∈ wave) : ∃ l, s.Loads p l := by
  obtain ⟨cache, hmem⟩ := exists_mem_loadWave hp
  obtain ⟨l, -, hl⟩ := exists_of_mapM_eq_ok h hmem
  exact ⟨l, loads_of_loadOne (hnormal p hp) hl⟩

end Wave

/-- What the paths of a list lead to, told from their projects. -/
theorem flatMap_references {ls : List LoadedProject} (h : ps.mapM s.loadAt = .ok ls) :
    ls.flatMap LoadedProject.references = ps.flatMap s.references := by
  rw [mapM_eq_ok_iff] at h
  induction h with
  | nil => rfl
  | cons hl _ ih => rw [List.flatMap_cons, List.flatMap_cons, references_of_loadAt hl, ih]

/-- A discovery is done with some paths, and comes to its wave next. -/
structure State.HasDone (s : Source) (done : List Path) (st : State) : Prop where
  /-- What was seen is done with, or comes next. -/
  seen : st.seen = done ++ st.wave
  /-- Nothing comes twice. -/
  nodup : (done ++ st.wave).Nodup
  /-- The file system keeps the paths apart. -/
  proper : ∀ p ∈ done ++ st.wave, s.files.Proper p
  /-- What is done with was read. -/
  readable : ∀ p ∈ done, ∃ text, s.files.readText p = .ok text

namespace State.HasDone

variable {st : State}

/-- At the start nothing is done, and the entries come next. -/
theorem start (hcurrent : s.files.currentDirectory = .ok current) (entries : List Path) :
    (State.start current entries).HasDone s [] where
  seen := fresh_snd [] _
  nodup := (nodup_fresh [] _).1
  proper := by
    intro p hp
    obtain ⟨entry, -, rfl⟩ := List.mem_map.1 (mem_of_mem_fresh hp)
    exact proper_absolutize hcurrent entry
  readable := by simp

/-- The paths of a wave are normal. -/
theorem isNormal (h : st.HasDone s done) : ∀ p ∈ st.wave, p.IsNormal :=
  fun p hp => (h.proper p (List.mem_append_right done hp)).1

/-- When a wave is loaded, a discovery is done with it. -/
theorem advance {results : List LoadedProject} (h : st.HasDone s done)
    (hresults : (loadWave s cache st.wave).1.mapM id = .ok results) :
    (st.advance results).HasDone s (done ++ st.wave) where
  seen := by
    rw [← h.seen]
    exact fresh_snd st.seen _
  nodup := by
    obtain ⟨hdistinct, hnew⟩ := nodup_fresh st.seen (results.flatMap LoadedProject.references)
    refine List.nodup_append.2 ⟨h.nodup, hdistinct, ?_⟩
    rintro p hp q hq rfl
    exact hnew p hq (h.seen ▸ hp)
  proper := by
    refine List.forall_mem_append.2 ⟨h.proper, fun p hp => ?_⟩
    -- A new path is a reference of a project that was loaded for a path of the wave.
    obtain ⟨l, hl, hpl⟩ := List.mem_flatMap.1 (mem_of_mem_fresh hp)
    obtain ⟨q, hq, hloads⟩ := exists_loads_of_mem_results h.isNormal hresults hl
    exact hloads.proper (h.proper q (List.mem_append_right done hq)) p hpl
  readable := by
    refine List.forall_mem_append.2 ⟨h.readable, fun p hp => ?_⟩
    obtain ⟨l, hloads⟩ := exists_loads_of_mem_wave h.isNormal hresults hp
    exact hloads.readable

/-- No more can be done with than files are stored. -/
theorem length_le (h : st.HasDone s done) : done.length ≤ s.files.storedCount :=
  FileSystem.length_le_storedCount (List.nodup_append.1 h.nodup).1 fun p hp =>
    ⟨h.proper p (List.mem_append_left st.wave hp), h.readable p hp⟩

end State.HasDone

/-! ## Wave after wave -/

/-- Waves are loaded as long as there is a next one and no project fails: what they consist of, what
comes out in the end, and the cache that is left. Nothing limits their number. -/
inductive LoadsWaves (s : Source) : Option ProjectCache → State → List (List Path) →
    Except DiscoveryError State → Option ProjectCache → Prop
  /-- There is no next wave. -/
  | done {cache : Option ProjectCache} {st : State} : st.wave = [] →
      LoadsWaves s cache st [] (.ok st) cache
  /-- A project of the wave fails. -/
  | failed {cache : Option ProjectCache} {st : State} {e : DiscoveryError} : st.wave ≠ [] →
      (loadWave s cache st.wave).1.mapM id = .error e →
        LoadsWaves s cache st [st.wave] (.error e) (loadWave s cache st.wave).2
  /-- The wave is loaded, and those behind it follow. -/
  | next {cache after : Option ProjectCache} {st : State} {results : List LoadedProject}
      {ws : List (List Path)} {result : Except DiscoveryError State} : st.wave ≠ [] →
      (loadWave s cache st.wave).1.mapM id = .ok results →
        LoadsWaves s (loadWave s cache st.wave).2 (st.advance results) ws result after →
          LoadsWaves s cache st (st.wave :: ws) result after

variable {after : Option ProjectCache} {st : State} {ws : List (List Path)}
  {result : Except DiscoveryError State} {count : Nat}

/-- Loading waves ends: each one that is loaded leaves fewer files that can be loaded. -/
theorem exists_loadsWaves (cache : Option ProjectCache) (st : State) (done : List Path)
    (h : st.HasDone s done) : ∃ ws result after, LoadsWaves s cache st ws result after := by
  by_cases hwave : st.wave = []
  · exact ⟨[], .ok st, cache, .done hwave⟩
  · cases hresults : (loadWave s cache st.wave).1.mapM id with
    | error e => exact ⟨[st.wave], .error e, _, .failed hwave hresults⟩
    | ok results =>
      have hnext := h.advance hresults
      obtain ⟨ws, result, after, hws⟩ :=
        exists_loadsWaves (loadWave s cache st.wave).2 (st.advance results) _ hnext
      exact ⟨st.wave :: ws, result, after, .next hwave hresults hws⟩
termination_by s.files.storedCount - done.length
decreasing_by
  -- The wave is not empty, and what it holds has been read like everything before it.
  have hle := hnext.length_le
  have hpos := List.length_pos_of_ne_nil hwave
  rw [List.length_append] at hle ⊢
  omega

/-- A limit that leaves room for the waves makes no difference. -/
theorem LoadsWaves.waves_eq (h : LoadsWaves s cache st ws result after)
    (hcount : ws.length ≤ count) : waves s count cache st = (result, after) := by
  -- On the waves: as long as the count is not used up, `waves` does what the relation says.
  induction h generalizing count with
  | done hwave =>
    cases count with
    | zero => rfl
    | succ count => rw [waves, if_pos hwave]
  | failed hwave hresults =>
    obtain ⟨count, rfl⟩ := Nat.exists_eq_add_of_le' hcount
    rw [List.length_singleton, waves, if_neg hwave]
    dsimp only
    rw [hresults]
  | next hwave hresults _ ih =>
    obtain ⟨count, rfl⟩ := Nat.exists_eq_add_of_le' hcount
    rw [List.length_cons, ← Nat.add_assoc, waves, if_neg hwave]
    dsimp only
    rw [hresults]
    exact ih (Nat.le_add_left _ count)

/-- There is at most one wave more than there are files left. -/
theorem LoadsWaves.length_le (h : LoadsWaves s cache st ws result after)
    (hdone : st.HasDone s done) : done.length + ws.length ≤ s.files.storedCount + 1 := by
  induction h generalizing done with
  | done => exact Nat.le_succ_of_le hdone.length_le
  | failed => exact Nat.succ_le_succ hdone.length_le
  | next hwave hresults _ ih =>
    -- The files left are fewer by those of the wave, at least by one.
    have hle := ih (hdone.advance hresults)
    have hpos := List.length_pos_of_ne_nil hwave
    rw [List.length_append] at hle
    rw [List.length_cons]
    omega

/-- Discovery loads waves from its entries on, and its limit leaves room for all of them. -/
theorem exists_loadsWaves_of_load (hcurrent : s.files.currentDirectory = .ok current)
    (cache : Option ProjectCache) (entries : List Path) :
    ∃ ws result after, LoadsWaves s cache (State.start current entries) ws result after ∧
      ws.length ≤ s.files.storedCount + 1 ∧
      load s cache entries =
        (result.bind fun st => (graphOf st.loaded).mapError .graph, after) := by
  -- The relation gives the waves, and their number is within the count of the loop.
  have hstart := State.HasDone.start hcurrent entries
  obtain ⟨ws, result, after, hws⟩ := exists_loadsWaves cache _ _ hstart
  have hlength : ws.length ≤ s.files.storedCount + 1 := by simpa using hws.length_le hstart
  have hcount := Nat.add_le_add_right s.files.storedCount_le_fileCount 1
  refine ⟨ws, result, after, hws, hlength, ?_⟩
  rw [load, hcurrent]
  dsimp only
  rw [hws.waves_eq (hlength.trans hcount)]

/-! ## Breadth-first order -/

/-- A discovery is on its way through an order: it has loaded what is done with, and comes to its
wave next. -/
structure State.OnWay (s : Source) (order done : List Path) (st : State) : Prop
    extends State.HasDone s done st where
  /-- What is done with has been loaded. -/
  loaded : done.mapM s.loadAt = .ok st.loaded
  /-- The rest of the order begins with the wave. -/
  order : BreadthFirst s.references done st.wave order

/-- A wave that is loaded leads on along the order. -/
theorem State.OnWay.advance {results : List LoadedProject} (h : st.OnWay s order done)
    (hcache : Transparent cache s.files) (hresults : st.wave.mapM s.loadAt = .ok results) :
    (st.advance results).OnWay s order (done ++ st.wave) where
  toHasDone := by
    have hloaded : (loadWave s cache st.wave).1.mapM id = .ok results := by
      rwa [(hcache.loadWave st.wave).1, mapM_map_id]
    exact h.toHasDone.advance hloaded
  loaded := by
    rw [List.mapM_append, h.loaded, hresults]
    rfl
  order := by
    have horder := h.order
    -- What the loop has seen is normal, so the order can be told by equality of paths.
    have hnormal : ∀ p ∈ done ++ st.wave, p.IsNormal := fun p hp => (h.proper p hp).1
    rw [← List.append_nil st.wave] at horder hnormal
    rw [breadthFirst_wave_iff (nodup_references s) (fun p _ => isNormal_references s p) hnormal,
      ← flatMap_references hresults, List.nil_append, List.append_nil, ← h.seen] at horder
    rw [← h.seen]
    exact horder

/-- Waves find what is found in breadth-first order, up to the first project that fails. -/
theorem LoadsWaves.map_loaded (h : LoadsWaves s cache st ws result after)
    (hcache : Transparent cache s.files) (hst : st.OnWay s order done) :
    result.map State.loaded = order.mapM s.loadAt := by
  -- With each wave `done` grows by what the wave held, while the order stays the same.
  induction h generalizing done with
  | done hwave =>
    have horder := hst.order
    rw [hwave, breadthFirst_nil_iff] at horder
    rw [horder, hst.loaded]
    rfl
  | failed _ hresults =>
    -- The first that fails in the wave is also the first that fails in the order.
    rw [(hcache.loadWave _).1, mapM_map_id] at hresults
    obtain ⟨more, hmore⟩ := hst.order.starts_with_known
    simp [← hmore, List.mapM_append, hst.loaded, hresults, bind, Except.bind, Except.map]
  | next _ hresults _ ih =>
    obtain ⟨hwave, hcache'⟩ := hcache.loadWave _
    rw [hwave, mapM_map_id] at hresults
    exact ih hcache' (hst.advance hcache hresults)

end BuildEngine.Discovery
