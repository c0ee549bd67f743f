import BuildEngine.FileSystem.Basic
import BuildEngine.Proofs.Fallible
import BuildEngine.Proofs.Path.Order

/-!
# What a copy does to files

Files stand at locations: in memory these are told by the components of a path, on a disk by the
names on the way from the root. A copy is told by what its two paths lead to
(`FileSystem.copied_of_copy`): the destination holds what the source held, at a new time, every
other location holds what it held before, and what led somewhere still leads there.

In memory, writing a file stamps the file at its path (`Memory.fileAt?_write_self`) and leaves every
other file (`Memory.fileAt?_write_of_ne`). On a disk the directories that are missing are made
first; they stay out of the way of every path that led somewhere (`Disk.Keeps`).
-/

namespace BuildEngine

/-! ## Files in memory -/

namespace Memory

variable {m m' : Memory} {file : StoredFile} {files : List StoredFile} {p q : Path}
  {components : List Component} {source destination : Path} {contents : Text.Bytes}

/-- The file whose path has the given components. -/
def fileAt? (m : Memory) (components : List Component) : Option StoredFile :=
  m.files.find? fun f => f.path.components = components

/-- A path leads to the file with its components. -/
theorem find?_eq_fileAt? (m : Memory) (p : Path) : m.find? p = m.fileAt? p.components :=
  rfl

/-- A file does not get in the way of those with other components. -/
theorem find?_insertFile_of_ne (h : file.path.components ≠ components) :
    ((insertFile file files).find? fun f => f.path.components = components) =
      files.find? fun f => f.path.components = components := by
  induction files with
  | nil => simp [insertFile, h]
  | cons f files ih =>
    rw [insertFile]
    cases horder : file.path.order f.path with
    | lt => simp [h]
    | eq =>
      -- The file is written in place of `f`, which has the same components.
      have hf : f.path.components ≠ components := by
        rwa [← Path.same_iff.1 (Path.order_eq_iff.1 horder)]
      simp [hf]
    | gt => simp only [List.find?_cons, ih]

/-- The file is found where it was written, even if the others are out of order. -/
theorem find?_insertFile_self (file : StoredFile) (files : List StoredFile) :
    ∃ path, ((insertFile file files).find? fun f => f.path.components = file.path.components) =
      some { file with path } := by
  induction files with
  | nil => exact ⟨file.path, by simp [insertFile]⟩
  | cons f files ih =>
    rw [insertFile]
    cases horder : file.path.order f.path with
    | lt => exact ⟨file.path, by simp⟩
    | eq => exact ⟨f.path, by simp [Path.same_iff.1 (Path.order_eq_iff.1 horder)]⟩
    | gt =>
      -- The file goes behind `f`, so `f` has other components.
      have hf : f.path.components ≠ file.path.components := by
        intro heq
        rw [Path.order_eq_iff.2 (Path.same_iff.2 heq.symm)] at horder
        cases horder
      simpa [hf] using ih

/-- Writing a file changes no other one. -/
theorem fileAt?_write_of_ne (h : p.components ≠ components) :
    (m.write p contents).fileAt? components = m.fileAt? components :=
  find?_insertFile_of_ne h

/-- A file that was written has its contents and the time of the clock. -/
theorem fileAt?_write_self (m : Memory) (p : Path) (contents : Text.Bytes) :
    ∃ path, (m.write p contents).fileAt? p.components =
      some ⟨path, contents, (m.write p contents).clock⟩ :=
  find?_insertFile_self ⟨p, contents, m.clock + 1⟩ m.files

/-- A copy goes well if it was not made to fail and there is a source, and it writes what this
holds. -/
theorem copy_eq_ok_iff : m.copy source destination = .ok m' ↔
    m.hasFault .copy source = false ∧
      ∃ f, m.find? source = some f ∧ m' = m.write destination f.contents := by
  unfold copy Memory.contents
  cases m.hasFault .copy source <;> cases m.find? source <;>
    simp [bind, Except.bind, pure, Except.pure, eq_comm]

end Memory

/-! ## Files on a disk -/

namespace Disk

variable {d d' d'' : Disk} {place other : List String} {node : DiskNode} {p : Path}
  {make : Nat → DiskNode} {nodes : List (List String × DiskNode)}
  {written written' : List (List String)}

/-- The contents and the time of the file at a place. -/
def file? (d : Disk) (place : List String) : Option (Text.Bytes × Nat) :=
  match d.node? place with
  | some (.file contents time) => some (contents, time)
  | _ => none

/-- A place holds a file exactly if its node is one. -/
theorem file?_eq_some_iff {contents : Text.Bytes} {time : Nat} :
    d.file? place = some (contents, time) ↔ d.node? place = some (.file contents time) := by
  unfold file?
  split <;> simp_all

/-- Below the root, what a place holds is told by the list of nodes. -/
theorem node?_eq_some_iff (h : place ≠ []) :
    d.node? place = some node ↔ d.nodes.find? (fun n => n.1 = place) = some (place, node) := by
  rw [node?, if_neg h, Option.map_eq_some_iff]
  constructor
  · rintro ⟨n, hn, rfl⟩
    have hname : n.1 = place := by simpa using List.find?_some hn
    rw [hn, ← hname]
  · intro hn
    exact ⟨_, hn, rfl⟩

/-- A node is found where it was put, even if the others are out of order. -/
theorem find?_insertNode_self (place : List String) (node : DiskNode)
    (nodes : List (List String × DiskNode)) :
    ((insertNode place node nodes).find? fun n => n.1 = place) = some (place, node) := by
  fun_induction insertNode place node nodes with
  | case1 => simp
  | case2 => simp
  | case3 => simp
  | case4 name n nodes hname _ ih => simpa [hname] using ih

/-- A node does not get in the way of those at other places. -/
theorem find?_insertNode_of_ne (h : place ≠ other) :
    ((insertNode place node nodes).find? fun n => n.1 = other) =
      nodes.find? fun n => n.1 = other := by
  fun_induction insertNode place node nodes with
  | case1 => simp [h]
  | case2 => simp [h]
  | case3 => simp [h]
  | case4 name n nodes _ _ ih => simp only [List.find?_cons, ih]

/-- Noting the time of a change in a directory changes nothing but times of directories. -/
theorem find?_touchFolder (place other : List String) (time : Nat)
    (nodes : List (List String × DiskNode)) :
    (touchFolder place time nodes).find? (fun n => n.1 = other) =
        nodes.find? (fun n => n.1 = other) ∨
      ∃ t t', nodes.find? (fun n => n.1 = other) = some (other, .folder t) ∧
        (touchFolder place time nodes).find? (fun n => n.1 = other) = some (other, .folder t') := by
  induction nodes with
  | nil => exact .inl rfl
  | cons n nodes ih =>
    obtain ⟨name, node⟩ := n
    by_cases hname : name = other
    · cases node <;> simp [touchFolder, hname]
    · cases node <;> simpa [touchFolder, hname] using ih

/-- A node that was put at a place is there, unless the place is the root. -/
theorem node?_put_self (h : place ≠ []) :
    (d.put place make).node? place = some (make (d.put place make).clock) := by
  rw [node?_eq_some_iff h]
  exact find?_insertNode_self place _ _

/-- Putting a node at a place changes nothing at others but the times of directories. -/
theorem node?_put_of_ne (h : other ≠ place) :
    (d.put place make).node? other = d.node? other ∨
      ∃ t t', d.node? other = some (.folder t) ∧
        (d.put place make).node? other = some (.folder t') := by
  -- The root is no entry, so it is looked at by itself.
  by_cases hroot : other = []
  · exact .inl (by rw [hroot, node?, node?, if_pos rfl, if_pos rfl])
  · have hput : (d.put place make).nodes.find? (fun n => n.1 = other) =
          d.nodes.find? (fun n => n.1 = other) ∨
        ∃ t t', d.nodes.find? (fun n => n.1 = other) = some (other, .folder t) ∧
          (d.put place make).nodes.find? (fun n => n.1 = other) = some (other, .folder t') := by
      rw [put]
      simp only [find?_insertNode_of_ne h.symm]
      by_cases hsome : (d.node? place).isSome = true
      · exact .inl (by rw [if_pos hsome])
      · rw [if_neg hsome]
        exact find?_touchFolder _ other _ d.nodes
    simp only [node?_eq_some_iff hroot]
    refine hput.imp (fun hsame => ?_) id
    rw [node?, node?, if_neg hroot, if_neg hroot, hsame]

/-- What a disk still holds when something was written at places where no directory is. -/
structure Keeps (written : List (List String)) (d d' : Disk) : Prop where
  current : d'.current = d.current
  /-- Time goes on. -/
  clock : d.clock ≤ d'.clock
  /-- Directories stay; only their times change. -/
  folder : ∀ place t, d.node? place = some (.folder t) → ∃ t', d'.node? place = some (.folder t')
  /-- Elsewhere no file changes, and none appears. -/
  file : ∀ place, place ∉ written → d'.file? place = d.file? place

/-- A disk keeps what is on it if nothing is written. -/
theorem Keeps.refl (d : Disk) : Keeps [] d d :=
  ⟨rfl, Nat.le_refl _, fun _ t h => ⟨t, h⟩, fun _ _ => rfl⟩

/-- What is kept twice is kept. -/
theorem Keeps.trans (h : Keeps written d d') (h' : Keeps written' d' d'') :
    Keeps (written ++ written') d d'' where
  current := h'.current.trans h.current
  clock := Nat.le_trans h.clock h'.clock
  folder place t hnode := by
    obtain ⟨t', hnode'⟩ := h.folder place t hnode
    exact h'.folder place t' hnode'
  file place hplace := by
    rw [List.mem_append, not_or] at hplace
    exact (h'.file place hplace.2).trans (h.file place hplace.1)

/-- Putting a node at a place where no directory is. -/
theorem keeps_put (h : ∀ t, d.node? place ≠ some (.folder t)) :
    Keeps [place] d (d.put place make) where
  current := rfl
  clock := Nat.le_succ d.clock
  folder other t hnode := by
    have hne : other ≠ place := fun heq => h t (heq ▸ hnode)
    -- Only the folder around the place changes, and that one in its time only.
    have hput : (d.put place make).node? other = _ ∨ _ := node?_put_of_ne hne
    rcases hput with hsame | ⟨-, t', -, hnode'⟩
    · exact ⟨t, hsame.trans hnode⟩
    · exact ⟨t', hnode'⟩
  file other hother := by
    have hne : other ≠ place := by simpa using hother
    have hput : (d.put place make).node? other = _ ∨ _ := node?_put_of_ne hne
    unfold file?
    rcases hput with hsame | ⟨t, t', hnode, hnode'⟩
    · rw [hsame]
    · rw [hnode, hnode']

/-- Making a directory where nothing is changes no file. -/
theorem keeps_put_of_none (h : d.node? place = none) : Keeps [] d (d.put place .folder) := by
  have hput : Keeps [place] d (d.put place .folder) := keeps_put (by rw [h]; exact nofun)
  refine ⟨hput.current, hput.clock, hput.folder, fun other _ => ?_⟩
  by_cases hother : other = place
  · -- Neither the directory nor what was there before it is a file.
    have hroot : place ≠ [] := by
      rintro rfl
      cases h
    rw [hother, file?, file?, node?_put_self hroot, h]
  · exact hput.file other (by simpa using hother)

/-- Where segments lead, they still lead: the way goes through directories only. -/
theorem Keeps.follow_eq (h : Keeps written d d') {segments : List (List Char)}
    (hfollow : d.follow place segments = .ok other) : d'.follow place segments = .ok other := by
  -- On the segments: every folder on the way is still a folder.
  induction segments generalizing place with
  | nil => exact hfollow
  | cons segment segments ih =>
    rw [follow] at hfollow ⊢
    cases hnode : d.node? place with
    | none => simp [hnode] at hfollow
    | some n =>
      cases n with
      | file contents t => simp [hnode] at hfollow
      | folder t =>
        obtain ⟨t', hnode'⟩ := h.folder place t hnode
        simp only [hnode, hnode'] at hfollow ⊢
        split at hfollow
        · next hvoid =>
          rw [if_pos hvoid]
          exact ih hfollow
        · next hvoid =>
          rw [if_neg hvoid]
          split at hfollow
          · next hup =>
            rw [if_pos hup]
            exact ih hfollow
          · next hup =>
            rw [if_neg hup]
            exact ih hfollow

/-- Where a path leads, it still leads. -/
theorem Keeps.place_eq (h : Keeps written d d') (hplace : d.place p = .ok other) :
    d'.place p = .ok other := by
  unfold Disk.place at hplace ⊢
  split at hplace
  · cases hplace
  · next htext =>
    rw [if_neg htext]
    split at hplace
    · next habsolute =>
      rw [if_pos habsolute]
      exact h.follow_eq hplace
    · next habsolute =>
      rw [if_neg habsolute, h.current]
      obtain ⟨base, hbase, hplace⟩ := exists_of_bind_eq_ok hplace
      rw [h.follow_eq hbase]
      exact h.follow_eq hplace

/-- What is at a path is what the place holds that it leads to. -/
theorem lookup_eq_ok_iff :
    d.lookup p = .ok node ↔ ∃ place, d.place p = .ok place ∧ d.node? place = some node := by
  unfold lookup
  cases d.place p with
  | error e => simp [bind, Except.bind]
  | ok place => cases h : d.node? place <;> simp [bind, Except.bind, pure, Except.pure, h]

/-! ### Making directories and copying -/

/-- Making a directory changes no file. -/
theorem keeps_makeFolder (h : d.makeFolder p = .ok d') : Keeps [] d d' := by
  obtain ⟨place, -, h⟩ := exists_of_bind_eq_ok h
  split at h
  · cases h
  · next hnode =>
    cases h
    exact keeps_put_of_none (Option.not_isSome_iff_eq_none.1 hnode)

/-- Making directories changes no file. -/
theorem keeps_makeFolders {depth : Nat} (h : d.makeFolders p depth = .ok d') : Keeps [] d d' := by
  induction depth generalizing p d' with
  | zero => cases h
  | succ depth ih =>
    rw [makeFolders] at h
    split at h
    · cases h
      exact .refl d
    · split at h
      · next made hmade =>
        cases h
        exact keeps_makeFolder hmade
      -- The directory above is missing, so it is made first.
      · split at h
        · cases h
        · obtain ⟨above, habove, h⟩ := exists_of_bind_eq_ok h
          exact (ih habove).trans (keeps_makeFolder h)
      -- The directory is there already.
      · split at h
        · cases h
          exact .refl d
        · cases h

/-- Making the directory that a path lies in changes no file. -/
theorem keeps_makeParent (h : d.makeParent p = .ok d') : Keeps [] d d' := by
  unfold makeParent at h
  split at h
  · cases h
    exact .refl d
  · exact keeps_makeFolders (mapError_eq_ok_iff.1 h)

/-- Writing a file puts it at the place that its path leads to. -/
theorem exists_place_of_writeHere {contents : Text.Bytes} (h : d.writeHere p contents = .ok d') :
    ∃ place, d.place p = .ok place ∧ Keeps [place] d d' ∧ d.clock < d'.clock ∧
      d'.file? place = some (contents, d'.clock) := by
  -- Only a place that is no folder is written.
  unfold writeHere at h
  split at h
  · split at h <;> cases h
  · cases h
  · next place hplace =>
    split at h
    · cases h
    · next hnode =>
      cases h
      have hroot : place ≠ [] := by
        rintro rfl
        exact hnode 0 rfl
      exact ⟨place, hplace, keeps_put hnode, Nat.lt_succ_self d.clock,
        file?_eq_some_iff.2 (node?_put_self hroot)⟩

/-- A copy writes what its source holds to the place of its destination. The two paths are followed
when the directories that were missing are there. A file that is copied onto itself is emptied. -/
theorem exists_places_of_copy {source destination : Path}
    (h : d.copy source destination = .ok d') :
    ∃ origin target contents time, d'.place source = .ok origin ∧
      d.file? origin = some (contents, time) ∧ d'.place destination = .ok target ∧
      Keeps [target] d d' ∧ d.clock < d'.clock ∧
      d'.file? target = some (if origin = target then [] else contents, d'.clock) := by
  obtain ⟨made, hmade, h⟩ := exists_of_bind_eq_ok h
  have hparent := keeps_makeParent hmade
  split at h
  · cases h
  · cases h
  · next contents time hlookup =>
    obtain ⟨origin, horigin, hnode⟩ := lookup_eq_ok_iff.1 hlookup
    obtain ⟨target, htarget, hkeeps, hclock, hfile⟩ := exists_place_of_writeHere h
    have honItself : (made.place source).toOption = (made.place destination).toOption ↔
        origin = target := by
      rw [horigin, htarget]
      exact Option.some_inj
    -- Making directories has changed no file, so the source held this before.
    have hbefore : d.file? origin = some (contents, time) := by
      rw [← hparent.file origin List.not_mem_nil]
      exact file?_eq_some_iff.2 hnode
    refine ⟨origin, target, contents, time, hkeeps.place_eq horigin, hbefore,
      hkeeps.place_eq htarget, hparent.trans hkeeps, Nat.lt_of_le_of_lt hparent.clock hclock, ?_⟩
    rw [hfile]
    simp only [honItself]

end Disk

/-! ## Files -/

namespace FileSystem

variable {fs fs' fs'' : FileSystem} {p : Path} {source destination : Path} {pair : Path × Path}

/-- Where a file can stand. -/
inductive Location where
  /-- In memory a file stands at the components of its path. -/
  | components (components : List Component)
  /-- On a disk a file stands at the end of names. -/
  | names (names : List String)
deriving DecidableEq, Repr

/-- The location that a path leads to. -/
def locate? : FileSystem → Path → Option Location
  | memory _, p => some (.components p.components)
  | disk d, p => (d.place p).toOption.map .names

/-- The contents and the time of the file at a location, also where asking for them was made to
fail. -/
def fileAt? : FileSystem → Location → Option (Text.Bytes × Nat)
  | memory m, .components components =>
    (m.fileAt? components).map fun f => (f.contents, f.modified)
  | disk d, .names names => d.file? names
  | _, _ => none

/-- The time of the last change. -/
def clock : FileSystem → Nat
  | memory m => m.clock
  | disk d => d.clock

/-- What a copy writes when it has read contents: a file on a disk that is copied onto itself is cut
before it is read. -/
def copyOf : FileSystem → (origin target : Location) → Text.Bytes → Text.Bytes
  | memory _, _, _, contents => contents
  | disk _, origin, target, contents => if origin = target then [] else contents

/-- Where the destination of a pair leads in the end, there is a copy of what stood where its source
leads at its turn, with a time of its own. -/
def Delivers (turn : FileSystem) (pair : Path × Path) (after : FileSystem) : Prop :=
  ∃ origin target contents old time, after.locate? pair.1 = some origin ∧
    turn.fileAt? origin = some (contents, old) ∧ after.locate? pair.2 = some target ∧
    after.fileAt? target = some (turn.copyOf origin target contents, time) ∧
    turn.clock < time ∧ time ≤ after.clock

/-- What was delivered stays so, as long as paths lead where they led and nothing else is written to
the destination. -/
theorem Delivers.later {turn : FileSystem} (h : turn.Delivers pair fs)
    (hleads : ∀ p l, fs.locate? p = some l → fs'.locate? p = some l)
    (hkept : ∀ l, fs'.locate? pair.2 = some l → fs'.fileAt? l = fs.fileAt? l)
    (hclock : fs.clock ≤ fs'.clock) : turn.Delivers pair fs' := by
  obtain ⟨origin, target, contents, old, time, horigin, hold, htarget, hnew, hlater, hle⟩ := h
  have htarget' := hleads _ _ htarget
  refine ⟨origin, target, contents, old, time, hleads _ _ horigin, hold, htarget', ?_, hlater,
    Nat.le_trans hle hclock⟩
  rw [hkept target htarget', hnew]

/-- What a copy does: it delivers its pair, and nothing else. -/
structure Copied (pair : Path × Path) (fs fs' : FileSystem) : Prop where
  delivers : fs.Delivers pair fs'
  /-- Paths lead where they led. -/
  leads : ∀ p l, fs.locate? p = some l → fs'.locate? p = some l
  /-- No other file changes, and none appears. -/
  others : ∀ l, fs'.locate? pair.2 ≠ some l → fs'.fileAt? l = fs.fileAt? l
  /-- Time goes on. -/
  clock : fs.clock ≤ fs'.clock

/-- In memory a copy is a write of what the source holds. -/
theorem copied_write {m : Memory} {f : StoredFile} (h : m.find? source = some f) :
    Copied (source, destination) (memory m) (memory (m.write destination f.contents)) where
  delivers := by
    obtain ⟨path, hwritten⟩ := m.fileAt?_write_self destination f.contents
    refine ⟨.components source.components, .components destination.components, f.contents,
      f.modified, _, rfl, ?_, rfl, ?_, Nat.lt_succ_self m.clock, Nat.le_refl _⟩
    · rw [fileAt?, ← Memory.find?_eq_fileAt?, h]
      rfl
    · rw [fileAt?, hwritten]
      rfl
  leads _ _ h := h
  others l hl := by
    -- The file of another location is another file of the memory, or none.
    cases l with
    | components components =>
      have hne : destination.components ≠ components := fun heq => hl (congrArg _ (congrArg _ heq))
      rw [fileAt?, fileAt?, Memory.fileAt?_write_of_ne hne]
    | names names => rfl
  clock := Nat.le_succ m.clock

/-- On a disk a copy writes to the place that its destination leads to. -/
theorem copied_disk {d d' : Disk} (h : d.copy source destination = .ok d') :
    Copied (source, destination) (disk d) (disk d') := by
  obtain ⟨origin, target, contents, time, horigin, hbefore, htarget, hkeeps, hclock, hafter⟩ :=
    Disk.exists_places_of_copy h
  refine ⟨⟨.names origin, .names target, contents, time, d'.clock, ?_, hbefore, ?_, ?_, hclock,
    Nat.le_refl _⟩, ?_, ?_, hkeeps.clock⟩
  · rw [locate?, horigin]
    rfl
  · rw [locate?, htarget]
    rfl
  · rw [fileAt?, hafter, copyOf]
    simp only [Location.names.injEq]
  · intro p l hl
    rw [locate?] at hl ⊢
    cases hplace : d.place p with
    | error e => simp [hplace, Except.toOption] at hl
    | ok place =>
      rw [hplace] at hl
      rwa [hkeeps.place_eq hplace]
  · intro l hl
    -- The locations of a memory hold no file of a disk.
    cases l with
    | components components => rfl
    | names names =>
      refine hkeeps.file names ?_
      rw [List.mem_singleton]
      rintro rfl
      exact hl (by rw [locate?, htarget]; rfl)

/-- A copy that goes well has copied. -/
theorem copied_of_copy (h : fs.copy source destination = .ok fs') :
    Copied (source, destination) fs fs' := by
  cases fs with
  | memory m =>
    obtain ⟨m', hcopy, rfl⟩ := map_eq_ok_iff.1 h
    obtain ⟨-, f, hf, rfl⟩ := Memory.copy_eq_ok_iff.1 hcopy
    exact copied_write hf
  | disk d =>
    obtain ⟨d', hcopy, rfl⟩ := map_eq_ok_iff.1 h
    exact copied_disk hcopy

end FileSystem

end BuildEngine
