import BuildEngine.Project.Cache
import BuildEngine.Proofs.Fallible
import BuildEngine.Proofs.Path.Normal
import BuildEngine.Proofs.Path.Order

/-!
# Loading projects

A project that is loaded has the normal form of its path for its file (`Project.file_of_load`).
Whatever a cache holds, the project it gives for a path has that file, and the file was read
(`ProjectCache.file_of_load`). A cache in which nothing else was put than what was loaded changes
nothing about loading (`ProjectCache.Faithful.load`).
-/

namespace BuildEngine

variable {files : FileSystem} {file : Path} {p : Project}

namespace Project

/-- A project that is read from tables has the file that it is read for. -/
theorem file_of_ofEntries {entries : Toml.Entries}
    (h : ofEntries file entries = .ok (.ok p)) : p.file = file := by
  -- First the shape of the tables, then the expressions in them.
  obtain ⟨_, -, h⟩ := exists_of_bind_eq_ok h
  obtain ⟨_, -, h⟩ := exists_of_bind_eq_ok h
  obtain ⟨_, -, h⟩ := exists_of_bind_eq_ok h
  obtain ⟨_, -, h⟩ := exists_of_bind_eq_ok h
  obtain ⟨_, -, h⟩ := exists_of_bind_eq_ok h
  obtain ⟨_, -, h⟩ := exists_of_bind_eq_ok h
  obtain ⟨_, -, h⟩ := exists_of_bind_eq_ok h
  obtain ⟨_, -, h⟩ := exists_of_bind_eq_ok h
  obtain ⟨_, -, h⟩ := exists_of_bind_eq_ok (Except.ok.inj h)
  obtain ⟨_, -, h⟩ := exists_of_bind_eq_ok h
  obtain ⟨_, -, h⟩ := exists_of_bind_eq_ok h
  obtain ⟨_, -, h⟩ := exists_of_bind_eq_ok h
  cases h
  rfl

/-- A project that is read from text has the file that it is read for. -/
theorem file_of_ofText {contents : String} (h : ofText file contents = .ok p) : p.file = file := by
  unfold ofText at h
  split at h
  · next result hresult =>
    subst h
    obtain ⟨entries, -, hentries⟩ := exists_of_bind_eq_ok hresult
    exact file_of_ofEntries hentries
  · cases h

/-- The file of a loaded project is the normal form of the path it was loaded by. -/
theorem file_of_load (h : load files file = .ok p) : p.file = file.normalize := by
  obtain ⟨contents, -, h⟩ := exists_of_bind_eq_ok h
  exact file_of_ofText h

/-- A project file that is read is a text. -/
theorem exists_readText_of_readFile {contents : String} (h : readFile files file = .ok contents) :
    ∃ text, files.readText file = .ok text := by
  unfold readFile at h
  cases hread : files.readText file with
  | ok text => exact ⟨text, rfl⟩
  | error e =>
    rw [hread] at h
    cases h

/-- A project that is loaded was read from the file at its normal path. -/
theorem exists_readText_of_load (h : load files file = .ok p) :
    ∃ text, files.readText file.normalize = .ok text := by
  obtain ⟨contents, hcontents, -⟩ := exists_of_bind_eq_ok h
  exact exists_readText_of_readFile hcontents

end Project

namespace ProjectCache

variable {c : ProjectCache} {contents key key' : String}

/-- What a cache has for a file is what the file says. -/
def Faithful (c : ProjectCache) (files : FileSystem) : Prop :=
  ∀ file contents p, Project.readFile files (Path.normalize file) = .ok contents →
    c.hit? (keyFor file.normalize (Text.encode contents)) file.normalize = some p →
      Project.ofText file.normalize contents = .ok p

/-- The first entry of a name is the one that was put last. -/
theorem find?_put (c : ProjectCache) (name other : String) (entry : CacheEntry) :
    (c.put name entry).find? other = if name = other then some entry else c.find? other := by
  unfold put find?
  rw [List.find?_cons]
  by_cases h : name = other
  · simp [h]
  · simp only [h, decide_false, if_false, List.find?_filter]
    congr 2
    funext f
    by_cases hf : f.1 = other <;> simp [hf, Ne.symm h]

/-- What is put into a cache is found by its name, if it is a project of the file, and nothing else
is touched. -/
theorem hit?_put (c : ProjectCache) (name key : String) (entry : CacheEntry) (file : Path) :
    (c.put name entry).hit? key file =
      if name = fileName key then
        match entry with
        | .project p => if p.file.same file then some p else none
        | .junk _ => none
      else c.hit? key file := by
  unfold hit? read
  rw [find?_put]
  -- The entry written is asked for by its own name, or the one asked for is as before.
  by_cases h : name = fileName key
  · simp only [h, if_true]
    match entry with
    | .project p => rfl
    | .junk [] => rfl
    | .junk (_ :: _) => rfl
  · simp only [h, if_false]

/-- A project that is written is found by its key, if it is one of the file, and nothing else is
touched. -/
theorem hit?_write (c : ProjectCache) (key key' : String) (p : Project) (file : Path) :
    (c.write key p).hit? key' file =
      if fileName key = fileName key' then if p.file.same file then some p else none
      else c.hit? key' file :=
  c.hit?_put (fileName key) key' (.project p) file

/-- A project is used for its own file only. -/
theorem same_of_hit? (h : c.hit? key file = some p) : p.file.same file = true := by
  unfold hit? at h
  split at h
  · split at h
    · next hsame =>
      cases h
      exact hsame
    · cases h
  · cases h

/-- Loading through a cache is loading, if an entry that is used for the file is what the file
says. -/
theorem load_fst_of_hit
    (h : ∀ contents p, Project.readFile files file.normalize = .ok contents →
      c.hit? (keyFor file.normalize (Text.encode contents)) file.normalize = some p →
        Project.ofText file.normalize contents = .ok p) :
    (c.load files file).1 = Project.load files file := by
  unfold ProjectCache.load Project.load
  dsimp only
  -- Unreadable files fail alike; otherwise a hit returns what `h` says the text means.
  cases hread : Project.readFile files file.normalize with
  | error e => rfl
  | ok contents =>
    change _ = Project.ofText file.normalize contents
    dsimp only
    split
    · next p hhit => exact (h contents p hread hhit).symm
    · split
      · next p hp => exact hp.symm
      · next e he => exact he.symm

/-- Loading through a faithful cache is loading. -/
theorem Faithful.load_fst (h : c.Faithful files) (file : Path) :
    (c.load files file).1 = Project.load files file :=
  load_fst_of_hit (h file)

/-- Loading leaves a cache as it is, or puts what was loaded into it. -/
theorem load_snd_cases (c : ProjectCache) (files : FileSystem) (file : Path) :
    (c.load files file).2 = c ∨ ∃ contents p,
      Project.readFile files file.normalize = .ok contents ∧
        Project.ofText file.normalize contents = .ok p ∧
          (c.load files file).2 = c.write (keyFor file.normalize (Text.encode contents)) p := by
  unfold load
  dsimp only
  cases hread : Project.readFile files file.normalize with
  | error e => exact .inl rfl
  | ok contents =>
    dsimp only
    split
    · exact .inl rfl
    · split
      · next p hp => exact .inr ⟨contents, p, rfl, hp, rfl⟩
      · exact .inl rfl

/-- Whatever a cache holds, what is loaded through it has the file that it was loaded by, and that
file was read. -/
theorem file_of_load (h : (c.load files file).1 = .ok p) :
    p.file.same file.normalize = true ∧ ∃ text, files.readText file.normalize = .ok text := by
  unfold load at h
  dsimp only at h
  cases hread : Project.readFile files file.normalize with
  | error e =>
    rw [hread] at h
    cases h
  | ok contents =>
    refine ⟨?_, Project.exists_readText_of_readFile hread⟩
    rw [hread] at h
    dsimp only at h
    split at h
    · next q hhit =>
      cases h
      exact same_of_hit? hhit
    · split at h
      · next q hq =>
        cases h
        rw [Project.file_of_ofText hq]
        exact Path.same_self _
      · cases h

/-- A cache stays faithful, whatever is loaded through it: an entry is used for the very file only
that it was made from. -/
theorem Faithful.load (h : c.Faithful files) (file : Path) :
    (c.load files file).2.Faithful files := by
  rcases load_snd_cases c files file with heq | ⟨contents, p, hread, hp, heq⟩
  · rwa [heq]
  · rw [heq]
    intro other contents' p' hread' hhit
    rw [hit?_write] at hhit
    -- Files of two names may share an entry, but the entry tells which of them it was made from.
    split at hhit
    · split at hhit
      · next hsame =>
        cases hhit
        have hfile : file.normalize = other.normalize := by
          rw [Project.file_of_ofText hp] at hsame
          exact Path.eq_of_same (Path.isNormal_normalize file) (Path.isNormal_normalize other) hsame
        rw [← hfile, hread] at hread'
        cases hread'
        rwa [← hfile]
      · cases hhit
    · exact h other contents' p' hread' hhit

end ProjectCache

end BuildEngine
