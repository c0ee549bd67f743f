import BuildEngine.Proofs.Project.Loading

/-!
# A cache never shows

A cache has a history: projects are loaded through it while their files come, change and go, its
entries are deleted, and files of it are overwritten (`CacheEvent`). Whatever the history, to load a
project through the cache is to load it (`ProjectCache.load_after`), provided that different inputs
have different keys and that what a file was overwritten with is no project of a path that is looked
up in it.

The key of an entry and the path of the project in it tell what the project was made from
(`ProjectCache.eq_of_keyInput_eq`). So every use that is still to be made of a cache is right
(`ProjectCache.Serves`), and this is kept by all that happens to it.
-/

namespace BuildEngine

/-! ## Keys -/

namespace Text

/-- Bytes are read one by one onto those that were read. -/
theorem toList_loop (bytes : ByteArray) (i : Nat) (read : List UInt8) :
    ByteArray.toList.loop bytes i read = read.reverse ++ bytes.data.toList.drop i := by
  fun_induction ByteArray.toList.loop bytes i read with
  | case1 i read hi ih =>
    have hlength : i < bytes.data.toList.length := by simpa using hi
    have hget : bytes.get! i = bytes.data.toList[i] := by
      rw [Array.getElem_toList]
      exact getElem!_pos bytes.data i hi
    rw [ih, List.drop_eq_getElem_cons hlength, List.reverse_cons, hget, List.append_assoc]
    rfl
  | case2 i read hi =>
    have hlength : bytes.data.toList.length ≤ i := by simpa using hi
    rw [List.drop_eq_nil_of_le hlength, List.append_nil]

/-- Texts are the same if their bytes are. -/
theorem encode_inj {s t : String} : encode s = encode t ↔ s = t := by
  refine ⟨fun h => ?_, congrArg encode⟩
  have hbytes (s : String) : encode s = s.toByteArray.data.toList := by
    show ByteArray.toList.loop s.toByteArray 0 [] = _
    rw [toList_loop]
    rfl
  rw [hbytes, hbytes, Array.toList_inj] at h
  exact String.toByteArray_inj.1 (ByteArray.ext h)

end Text

namespace Blake3

/-- Hexadecimal digits are different. -/
theorem digitChar_inj : ∀ m < 16, ∀ n < 16, Nat.digitChar m = Nat.digitChar n → m = n := by
  decide

/-- Bytes are the same if their hexadecimal digits are. -/
theorem hex_inj {as bs : Text.Bytes} : hex as = hex bs ↔ as = bs := by
  refine ⟨fun h => ?_, congrArg hex⟩
  replace h := String.ofList_inj.1 h
  -- On the bytes: two digits give back one byte.
  induction as generalizing bs with
  | nil => cases bs with
    | nil => rfl
    | cons b bs => cases h
  | cons a as ih => cases bs with
    | nil => cases h
    | cons b bs =>
      simp only [List.flatMap_cons, List.cons_append, List.nil_append, List.cons.injEq] at h
      obtain ⟨hhigh, hlow, htail⟩ := h
      have ha := a.toNat_lt
      have hb := b.toNat_lt
      have hdiv := digitChar_inj _ (by omega) _ (by omega) hhigh
      have hmod := digitChar_inj _ (by omega) _ (by omega) hlow
      have hbyte : a = b := UInt8.toNat_inj.1 (by omega)
      rw [hbyte, ih htail]

end Blake3

namespace ProjectCache

variable {c : ProjectCache} {file : Path} {contents contents' : String}

/-- Keys share a file if the digests that they are made from are the same. -/
theorem fileName_keyFor_eq_iff {file file' : Path} {bytes bytes' : Text.Bytes} :
    fileName (keyFor file bytes) = fileName (keyFor file' bytes') ↔
      (Blake3.hash (keyInput file bytes)).take 16 =
        (Blake3.hash (keyInput file' bytes')).take 16 := by
  rw [fileName, fileName, String.append_left_inj, keyFor, keyFor, Blake3.hex_inj]

/-- The bytes of a key tell the contents once the path is known. -/
theorem eq_of_keyInput_eq
    (h : keyInput file (Text.encode contents) = keyInput file (Text.encode contents')) :
    contents = contents' := by
  have htail := List.append_cancel_left h
  exact Text.encode_inj.1 (List.cons.inj htail).2

end ProjectCache

/-! ## Histories -/

/-- What happens to a cache. -/
inductive CacheEvent where
  /-- A project is loaded; what was loaded may fail to be stored. -/
  | load (files : FileSystem) (file : Path) (stored : Bool)
  /-- All entries are deleted. -/
  | clear
  /-- A file of the cache is overwritten. -/
  | overwrite (name : String) (entry : CacheEntry)

namespace CacheEvent

/-- The cache after an event. -/
def apply (c : ProjectCache) : CacheEvent → ProjectCache
  | load files file stored => if stored then (c.load files file).2 else c
  | clear => c.clear.1
  | overwrite name entry => c.put name entry

/-- The path that an event loads and what the file says, if it can be read. -/
def read? : CacheEvent → Option (Path × String)
  | load files file _ =>
    match Project.readFile files file.normalize with
    | .ok contents => some (file.normalize, contents)
    | .error _ => none
  | _ => none

/-- What a load reads is the file at the normal path, if it can be read. -/
theorem read?_load_eq_some_iff {files : FileSystem} {path file : Path} {contents : String}
    {stored : Bool} :
    (load files path stored).read? = some (file, contents) ↔
      file = path.normalize ∧ Project.readFile files file = .ok contents := by
  unfold read?
  constructor
  -- The text is the one that was read, under the normal form of its path.
  · intro h
    dsimp only at h
    split at h
    · next hread =>
      cases h
      exact ⟨rfl, hread⟩
    · cases h
  · rintro ⟨rfl, hread⟩
    simp only [hread]

/-- Files are read at their normal paths. -/
theorem isNormal_of_read? {e : CacheEvent} {file : Path} {contents : String}
    (h : e.read? = some (file, contents)) : file.IsNormal := by
  cases e with
  | load files path stored =>
    rw [(read?_load_eq_some_iff.1 h).1]
    exact Path.isNormal_normalize path
  | clear | overwrite => cases h

/-- The bytes of the key that an event looks up. -/
def keyInput? (e : CacheEvent) : Option Text.Bytes :=
  e.read?.map fun (file, contents) => ProjectCache.keyInput file (Text.encode contents)

/-- Whether a later event, if it looks up a file that an event has overwritten, finds no project of
its own path there. -/
def isForeignTo (e later : CacheEvent) : Bool :=
  match e, later.read? with
  | overwrite name (.project p), some (file, contents) =>
    ProjectCache.fileName (ProjectCache.keyFor file (Text.encode contents)) ≠ name ||
      !p.file.same file
  | _, _ => true

end CacheEvent

namespace ProjectCache

open CacheEvent

variable {c : ProjectCache} {events later : List CacheEvent} {e : CacheEvent} {p : Project}
  {files : FileSystem} {file : Path} {key contents : String}

/-- The digests that keys are made from do not collide on the inputs that occur. -/
def CollisionFree (events : List CacheEvent) : Prop :=
  ∀ a ∈ events.filterMap keyInput?, ∀ b ∈ events.filterMap keyInput?,
    (Blake3.hash a).take 16 = (Blake3.hash b).take 16 → a = b

instance (events : List CacheEvent) : Decidable (CollisionFree events) :=
  inferInstanceAs (Decidable (∀ a ∈ _, ∀ b ∈ _, _))

/-- A cache after a history that starts with no files. -/
def after (events : List CacheEvent) : ProjectCache :=
  events.foldl CacheEvent.apply empty

/-- The uses that later events make of a cache are right: they load what they would load without
it. -/
def Serves (c : ProjectCache) (later : List CacheEvent) : Prop :=
  ∀ e ∈ later, ∀ file contents p, e.read? = some (file, contents) →
    c.hit? (keyFor file (Text.encode contents)) file = some p → Project.ofText file contents = .ok p

/-- An empty cache serves, as nothing is found in it. -/
theorem serves_empty (later : List CacheEvent) : empty.Serves later := by
  intro e _ file contents p _ hhit
  simp [hit?, read, find?, empty] at hhit

/-- A cache that serves all later events serves those behind the first. -/
theorem Serves.tail (h : c.Serves (e :: later)) : c.Serves later :=
  fun e' he' => h e' (List.mem_cons_of_mem _ he')

/-- Where digests do not collide, entries of one name for one file have the same contents. -/
theorem CollisionFree.eq_of_fileName_eq {events : List CacheEvent} (h : CollisionFree events)
    {e e' : CacheEvent} (he : e ∈ events) (he' : e' ∈ events) {file : Path}
    {contents contents' : String} (hread : e.read? = some (file, contents))
    (hread' : e'.read? = some (file, contents'))
    (hname : fileName (keyFor file (Text.encode contents)) =
      fileName (keyFor file (Text.encode contents'))) : contents = contents' := by
  have hmem {e : CacheEvent} {contents : String} (he : e ∈ events)
      (hread : e.read? = some (file, contents)) :
      keyInput file (Text.encode contents) ∈ events.filterMap keyInput? :=
    List.mem_filterMap.2 ⟨e, he, by rw [keyInput?, hread]; rfl⟩
  refine eq_of_keyInput_eq (h _ (hmem he hread) _ (hmem he' hread') ?_)
  exact fileName_keyFor_eq_iff.1 hname

/-! ## What each event keeps -/

/-- What is left when the entries are deleted was there before. -/
theorem hit?_of_hit?_clear (h : c.clear.1.hit? key file = some p) : c.hit? key file = some p := by
  have hfind : c.clear.1.find? (fileName key) = none ∨
      c.clear.1.find? (fileName key) = c.find? (fileName key) := by
    unfold clear find?
    rw [List.find?_filter]
    -- Which files are deleted depends on their names only.
    by_cases hentry : isEntry (fileName key) = true
    · refine .inl ?_
      rw [Option.map_eq_none_iff, List.find?_eq_none]
      intro f _ hf
      obtain ⟨hkept, hname⟩ := by simpa using hf
      rw [hname, hentry] at hkept
      cases hkept
    · refine .inr ?_
      congr 2
      funext f
      by_cases hf : f.1 = fileName key <;> simp [hf, hentry]
  rcases hfind with hnone | hsame
  · simp [hit?, read, hnone] at h
  · unfold hit? read at h ⊢
    rwa [hsame] at h

/-- A cache whose entries are deleted serves. -/
theorem Serves.clear (h : c.Serves later) : c.clear.1.Serves later :=
  fun e he file contents p hread hhit => h e he file contents p hread (hit?_of_hit?_clear hhit)

/-- What is foreign to the loads that are still to come is not used by them. -/
theorem Serves.overwrite {name : String} {entry : CacheEntry} (h : c.Serves later)
    (hforeign : ∀ e ∈ later, (CacheEvent.overwrite name entry).isForeignTo e) :
    (c.put name entry).Serves later := by
  intro e he file contents p hread hhit
  rw [hit?_put] at hhit
  -- A foreign entry under this name belongs to another file, so it is no hit.
  split at hhit
  · next hname =>
    cases entry with
    | junk bytes => cases hhit
    | project q =>
      have hdiffers : q.file.same file = false := by
        simpa [isForeignTo, hread, hname] using hforeign e he
      simp only [hdiffers, Bool.false_eq_true, if_false] at hhit
      cases hhit
  · exact h e he file contents p hread hhit

/-- What was loaded is used for the very contents only that it was made from. -/
theorem Serves.load {path : Path} {stored : Bool} (h : c.Serves later)
    (hcollision : CollisionFree (CacheEvent.load files path stored :: later)) :
    (c.load files path).2.Serves later := by
  rcases load_snd_cases c files path with heq | ⟨contents, p, hread, hp, heq⟩
  · rwa [heq]
  · rw [heq]
    intro e he file contents' q hread' hhit
    rw [hit?_write] at hhit
    split at hhit
    · next hname =>
      split at hhit
      · next hsame =>
        cases hhit
        -- Different paths and contents may have the same bytes of a key, but not for one path.
        have hfile : path.normalize = file := by
          rw [Project.file_of_ofText hp] at hsame
          exact Path.eq_of_same (Path.isNormal_normalize path) (isNormal_of_read? hread') hsame
        subst hfile
        have hcontents := hcollision.eq_of_fileName_eq List.mem_cons_self
          (List.mem_cons_of_mem _ he) (read?_load_eq_some_iff.2 ⟨rfl, hread⟩) hread' hname
        rwa [← hcontents]
      · cases hhit
    · exact h e he file contents' q hread' hhit

/-- Among fewer events there are no more collisions. -/
theorem CollisionFree.of_subset {events events' : List CacheEvent} (h : CollisionFree events')
    (hsubset : events ⊆ events') : CollisionFree events := by
  intro a ha b hb
  exact h a (List.filterMap_subset _ hsubset ha) b (List.filterMap_subset _ hsubset hb)

/-- Every event keeps the uses right that are still to be made. -/
theorem Serves.apply (h : c.Serves (e :: later)) (hcollision : CollisionFree (e :: later))
    (hforeign : ∀ e' ∈ later, e.isForeignTo e') : (CacheEvent.apply c e).Serves later := by
  cases e with
  | load files path stored =>
    cases stored with
    | false => exact h.tail
    | true => exact h.tail.load hcollision
  | clear => exact h.tail.clear
  | overwrite name entry => exact h.tail.overwrite hforeign

/-- So does a whole history. -/
theorem Serves.foldl (h : c.Serves (events ++ later)) (hcollision : CollisionFree (events ++ later))
    (hforeign : (events ++ later).Pairwise fun e e' => e.isForeignTo e') :
    (events.foldl CacheEvent.apply c).Serves later := by
  induction events generalizing c with
  | nil => exact h
  | cons e events ih =>
    obtain ⟨hfirst, hrest⟩ := List.pairwise_cons.1 hforeign
    exact ih (h.apply hcollision hfirst)
      (hcollision.of_subset (List.subset_cons_self e (events ++ later))) hrest

/-- To load a project through a cache is to load it, whatever has happened to the cache since it had
no files. -/
theorem load_after (events : List CacheEvent) (files : FileSystem) (file : Path)
    (hcollision : CollisionFree (events ++ [CacheEvent.load files file true]))
    (hforeign : (events ++ [CacheEvent.load files file true]).Pairwise
      fun e later => e.isForeignTo later) :
    ((after events).load files file).1 = Project.load files file := by
  -- The load itself is the one event that is still to come after the history.
  have hserves := (serves_empty _).foldl hcollision hforeign
  refine load_fst_of_hit fun contents p hread hhit => ?_
  exact hserves _ List.mem_cons_self _ _ p (read?_load_eq_some_iff.2 ⟨rfl, hread⟩) hhit

/-- The files while a project file has some contents. -/
def filesWith (contents : String) : FileSystem :=
  .memory ⟨[⟨⟨"/app.keel.toml"⟩, Text.encode contents, 1⟩], 1, ⟨"/"⟩, []⟩

/-- A project file is edited and then as it was before. Its first entry becomes unreadable, all
entries are deleted, and its first entry comes to be that of another file. -/
def revertedEdit : List CacheEvent :=
  let file := ⟨"/app.keel.toml"⟩
  let first := fileName (keyFor file [])
  [.load (filesWith "") file true, .load (filesWith "default_targets = 'all'") file true,
    .overwrite first (.junk [0]), .load (filesWith "") file true, .clear,
    .overwrite first (.project ⟨⟨"/lib.keel.toml"⟩, none, [], [], []⟩)]

/-- The project is loaded as it is: not as it was edited, and not from the entry of another file. -/
theorem load_after_reverted_edit :
    ((after revertedEdit).load (filesWith "") ⟨"/./app.keel.toml"⟩).1 =
      .ok ⟨⟨"/app.keel.toml"⟩, none, [], [], []⟩ := by
  rw [load_after revertedEdit _ _ (by decide +kernel) (by decide +kernel)]
  decide +kernel

end ProjectCache

end BuildEngine
