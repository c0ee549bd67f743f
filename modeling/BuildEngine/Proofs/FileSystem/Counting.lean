import BuildEngine.Proofs.FileSystem.Writing
import BuildEngine.Proofs.Path.Normal
import Mathlib.Data.List.Nodup
import Mathlib.Data.List.Perm.Subperm

/-!
# Counting readable files

Different paths that can be read are different files, as long as the paths are normal, and on a disk
absolute as well: there are at most as many of them as files are stored (`length_le_storedCount`).
-/

namespace BuildEngine

/-- What a file system keeps apart: normal paths, on a disk from the root. -/
def FileSystem.Proper (fs : FileSystem) (p : Path) : Prop :=
  p.IsNormal ∧ ∀ d, fs = .disk d → p.isAbsolute = true

/-- The nodes of a disk that are files. -/
def Disk.files (d : Disk) : List (List String × DiskNode) :=
  d.nodes.filter fun n =>
    match n.2 with
    | .file .. => true
    | .folder _ => false

/-- A file that stands somewhere on a disk is among its files. -/
theorem Disk.mem_files_of_node? {d : Disk} {place : List String} {contents : Text.Bytes}
    {time : Nat} (h : d.node? place = some (.file contents time)) :
    (place, .file contents time) ∈ d.files := by
  -- The root is a directory, so the file stands among the nodes.
  have hroot : place ≠ [] := by
    rintro rfl
    cases h
  rw [Disk.node?_eq_some_iff hroot] at h
  exact List.mem_filter.2 ⟨List.mem_of_find?_eq_some h, rfl⟩

/-- What can be read on a disk is a file. -/
theorem Disk.exists_file_of_read {d : Disk} {p : Path} {bytes : Text.Bytes}
    (h : d.read p = .ok bytes) :
    ∃ place time, d.place p = .ok place ∧ d.node? place = some (.file bytes time) := by
  unfold Disk.read at h
  split at h
  · next contents time hlookup =>
    cases h
    obtain ⟨place, hplace, hnode⟩ := Disk.lookup_eq_ok_iff.1 hlookup
    exact ⟨place, time, hplace, hnode⟩
  · cases h
  · cases h

/-- Following names leads to where they say. -/
theorem Disk.eq_of_follow {d : Disk} {segments : List (List Char)} {names place r : List String}
    (hnames : segments.filterMap (Path.component? false) = names.map Component.name)
    (h : d.follow place segments = .ok r) : r = place ++ names := by
  induction segments generalizing place names with
  | nil =>
    cases names with
    | nil =>
      cases h
      exact (List.append_nil _).symm
    | cons s names => cases hnames
  | cons segment segments ih =>
    rw [follow] at h
    split at h
    · cases h
    · cases h
    · split at h
      · next hvoid =>
        rw [List.filterMap_cons_none (Path.component?_eq_none_iff.2 hvoid)] at hnames
        exact ih hnames h
      · next hvoid =>
        simp only [Path.isVoid, Bool.or_eq_true, decide_eq_true_eq, not_or] at hvoid
        split at h
        · next hup =>
          -- There is no way up among names.
          subst hup
          cases names <;> cases hnames
        · next hup =>
          have hname : Path.component? false segment = some (.name (String.ofList segment)) := by
            rw [Path.component?, if_neg hvoid.1, if_neg hvoid.2, if_neg hup]
          rw [List.filterMap_cons_some hname] at hnames
          cases names with
          | nil => cases hnames
          | cons s names =>
            obtain ⟨hs, hrest⟩ := List.cons.inj hnames
            rw [ih hrest h, List.append_assoc, List.singleton_append, Component.name.inj hs]

/-- On a disk, a normal absolute path leads to the place of its names. -/
theorem Disk.components_of_place {d : Disk} {p : Path} {place : List String} (hp : p.IsNormal)
    (habsolute : p.isAbsolute = true) (h : d.place p = .ok place) :
    p.components = .root :: place.map Component.name := by
  obtain ⟨names, hnames⟩ := hp.exists_names habsolute
  rw [Disk.place, if_pos habsolute] at h
  split at h
  · cases h
  · have hsegments := Path.components_of_isAbsolute habsolute
    rw [hnames, List.cons.injEq] at hsegments
    rw [hnames, Disk.eq_of_follow hsegments.2.symm h, List.nil_append]

namespace FileSystem

variable {fs : FileSystem} {p q : Path} {text : String} {i : Nat}

/-- How many files are stored: the directories of a disk do not count. -/
def storedCount : FileSystem → Nat
  | memory m => m.files.length
  | disk d => d.files.length

/-- Discovery counts at least as many files as are stored. -/
theorem storedCount_le_fileCount (fs : FileSystem) : fs.storedCount ≤ fs.fileCount := by
  cases fs with
  | memory m => exact Nat.le_refl _
  | disk d => exact List.length_filter_le _ _

/-- The number of the file at a path. -/
def number? (fs : FileSystem) (p : Path) : Option Nat :=
  match fs with
  | memory m => m.files.findIdx? fun f => f.path.same p
  | disk d =>
    match d.place p with
    | .ok place => d.files.findIdx? fun n => n.1 = place
    | .error _ => none

/-- What is read as text is read as bytes first. -/
theorem exists_read_of_readText (h : fs.readText p = .ok text) :
    ∃ bytes, fs.read p = .ok bytes := by
  unfold readText at h
  cases hread : fs.read p with
  | ok bytes => exact ⟨bytes, rfl⟩
  | error e =>
    rw [hread] at h
    cases h

/-- What can be read is one of the stored files. -/
theorem exists_number? (h : fs.readText p = .ok text) :
    ∃ i < fs.storedCount, fs.number? p = some i := by
  obtain ⟨bytes, hread⟩ := exists_read_of_readText h
  cases fs with
  | memory m =>
    -- What is numbered is what is found, since both ask for the same path.
    have hsome : (m.find? p).isSome := by
      simp only [read, Memory.read, Memory.contents] at hread
      split at hread
      · cases hread
      · split at hread
        · next f hf => rw [hf]; rfl
        · cases hread
    rw [Memory.find?, List.find?_isSome] at hsome
    cases hindex : m.files.findIdx? fun f => f.path.same p with
    | none =>
      obtain ⟨f, hf, hsame⟩ := hsome
      have := List.findIdx?_eq_none_iff.1 hindex f hf
      rw [hsame] at this
      cases this
    | some i => exact ⟨i, (List.findIdx?_eq_some_iff_getElem.1 hindex).1, hindex⟩
  | disk d =>
    obtain ⟨place, time, hplace, hnode⟩ := Disk.exists_file_of_read hread
    cases hindex : d.files.findIdx? fun n => n.1 = place with
    | none => simpa using List.findIdx?_eq_none_iff.1 hindex _ (Disk.mem_files_of_node? hnode)
    | some i =>
      have hlt := (List.findIdx?_eq_some_iff_getElem.1 hindex).1
      exact ⟨i, hlt, by rw [number?, hplace]; exact hindex⟩

/-- The root of a disk cannot be read. -/
theorem components_ne_root {d : Disk} (hp : p.IsNormal) (habsolute : p.isAbsolute = true)
    (h : (disk d).readText p = .ok text) : p.components ≠ [.root] := by
  intro hroot
  obtain ⟨bytes, hread⟩ := exists_read_of_readText h
  obtain ⟨place, time, hplace, hnode⟩ := Disk.exists_file_of_read hread
  have hcomponents := Disk.components_of_place hp habsolute hplace
  obtain rfl : place = [] := by simpa [hroot] using hcomponents
  cases hnode

/-- Files are told apart by their numbers. -/
theorem eq_of_number? (hp : fs.Proper p) (hq : fs.Proper q) (hpi : fs.number? p = some i)
    (hqi : fs.number? q = some i) : p = q := by
  refine Path.eq_of_same hp.1 hq.1 (decide_eq_true ?_)
  -- Files of a memory are told by their components, files of a disk by their place.
  cases fs with
  | memory m =>
    obtain ⟨hi, hpsame, -⟩ := List.findIdx?_eq_some_iff_getElem.1 hpi
    obtain ⟨_, hqsame, -⟩ := List.findIdx?_eq_some_iff_getElem.1 hqi
    exact (of_decide_eq_true hpsame).symm.trans (of_decide_eq_true hqsame)
  | disk d =>
    unfold number? at hpi hqi
    cases hpplace : d.place p with
    | error e => simp [hpplace] at hpi
    | ok place =>
      cases hqplace : d.place q with
      | error e => simp [hqplace] at hqi
      | ok place' =>
        simp only [hpplace] at hpi
        simp only [hqplace] at hqi
        obtain ⟨hi, hpsame, -⟩ := List.findIdx?_eq_some_iff_getElem.1 hpi
        obtain ⟨_, hqsame, -⟩ := List.findIdx?_eq_some_iff_getElem.1 hqi
        obtain rfl : place = place' :=
          (of_decide_eq_true hpsame).symm.trans (of_decide_eq_true hqsame)
        rw [Disk.components_of_place hp.1 (hp.2 d rfl) hpplace,
          Disk.components_of_place hq.1 (hq.2 d rfl) hqplace]

/-- There are no more readable paths than files. -/
theorem length_le_storedCount {ps : List Path} (hnodup : ps.Nodup)
    (h : ∀ p ∈ ps, fs.Proper p ∧ ∃ text, fs.readText p = .ok text) :
    ps.length ≤ fs.storedCount := by
  have hnumber : ∀ p ∈ ps, ∃ i < fs.storedCount, fs.number? p = some i := fun p hp =>
    have ⟨_, htext⟩ := (h p hp).2
    exists_number? htext
  -- Files are numbered, and different paths have different numbers below the count.
  have hinjective : (ps.map fun p => (fs.number? p).getD 0).Nodup := by
    refine List.Nodup.map_on (fun p hp q hq heq => ?_) hnodup
    obtain ⟨i, -, hi⟩ := hnumber p hp
    obtain ⟨j, -, hj⟩ := hnumber q hq
    rw [hi, hj] at heq
    obtain rfl : i = j := heq
    exact eq_of_number? (h p hp).1 (h q hq).1 hi hj
  have hsubset : (ps.map fun p => (fs.number? p).getD 0) ⊆ List.range fs.storedCount := by
    intro i hi
    obtain ⟨p, hp, rfl⟩ := List.mem_map.1 hi
    obtain ⟨i, hi, heq⟩ := hnumber p hp
    simpa [heq] using hi
  have hle := (List.subperm_of_subset hinjective hsubset).length_le
  rwa [List.length_map, List.length_range] at hle

end FileSystem

end BuildEngine
