import BuildEngine.Proofs.Graph.Waves

/-!
# Discovery ends

Wave after wave is loaded until there is none or a project fails (`LoadsWaves`). No path is loaded
twice (`LoadsWaves.nodup_and_proper`), and every wave but the last one consists of files that were
read (`LoadsWaves.behind_eq_nil`), so there is at most one wave more than files are stored
(`load_ends`).

The bound by stored files is one for disks without symbolic links, as `Disk` has none: there a file
is read by one normal path only (`FileSystem.Proper`). Through a link to a directory, one file could
be read by any number of them.
-/

namespace BuildEngine.Discovery

variable {s : Source} {cache after : Option ProjectCache} {p : Path} {done : List Path}
  {st : State} {ws : List (List Path)} {result : Except DiscoveryError State}

namespace LoadsWaves

/-- Nothing is loaded twice, and the file system keeps apart all that is loaded. -/
theorem nodup_and_proper (h : LoadsWaves s cache st ws result after) (hdone : st.HasDone s done) :
    (done ++ ws.flatten).Nodup ∧ ∀ p ∈ done ++ ws.flatten, s.files.Proper p := by
  -- Wave after wave moves to `done`, and `HasDone` says it of every state on the way.
  induction h generalizing done with
  | done hwave =>
    rw [List.flatten_nil, ← hwave]
    exact ⟨hdone.nodup, hdone.proper⟩
  | failed =>
    rw [List.flatten_singleton]
    exact ⟨hdone.nodup, hdone.proper⟩
  | next _ hresults _ ih =>
    rw [List.flatten_cons, ← List.append_assoc]
    exact ih (hdone.advance hresults)

/-- A wave with a path in it that cannot be read is the last one, and the loading fails. -/
theorem behind_eq_nil {before behind : List (List Path)} {wave : List Path}
    (h : LoadsWaves s cache st ws result after) (hdone : st.HasDone s done)
    (heq : ws = before ++ wave :: behind) (hp : p ∈ wave)
    (hunreadable : ∀ text, s.files.readText p ≠ .ok text) :
    behind = [] ∧ ∃ e, result = .error e := by
  induction h generalizing done before with
  | done => simp at heq
  | failed =>
    cases before with
    | nil => exact ⟨(List.cons.inj heq).2.symm, _, rfl⟩
    | cons first before => simp at heq
  | next _ hresults _ ih =>
    cases before with
    | nil =>
      -- In a wave that is followed by others every path was read.
      obtain ⟨rfl, -⟩ := List.cons.inj heq
      obtain ⟨l, hl⟩ := exists_loads_of_mem_wave hdone.isNormal hresults hp
      obtain ⟨text, htext⟩ := hl.readable
      exact absurd htext (hunreadable text)
    | cons first before => exact ih (hdone.advance hresults) (List.cons.inj heq).2

end LoadsWaves

/-- Discovery ends. However projects refer to each other, and whatever a cache holds, waves are
loaded until there is none or a project fails, at most one more than files are stored; without a
current directory there are none. No path is loaded twice in them, and a path that cannot be read
ends the discovery with the wave that it is in. What comes out is what is found. -/
theorem load_ends (s : Source) (cache : Option ProjectCache) (entries : List Path) :
    (∃ e, s.files.currentDirectory = .error e ∧
      load s cache entries = (.error (.currentDirectory e), cache)) ∨
    ∃ current ws result after, s.files.currentDirectory = .ok current ∧
      LoadsWaves s cache (State.start current entries) ws result after ∧
      ws.length ≤ s.files.storedCount + 1 ∧
      (ws.flatten.Nodup ∧ ∀ p ∈ ws.flatten, p.IsNormal) ∧
      (∀ before wave behind, ws = before ++ wave :: behind →
        (∃ p ∈ wave, ∀ text, s.files.readText p ≠ .ok text) →
          behind = [] ∧ ∃ e, result = .error e) ∧
      load s cache entries =
        (result.bind fun st => (graphOf st.loaded).mapError .graph, after) := by
  -- Without a current directory nothing is loaded at all.
  cases hcurrent : s.files.currentDirectory with
  | error e =>
    refine .inl ⟨e, rfl, ?_⟩
    rw [load, hcurrent]
  | ok current =>
    have hstart := State.HasDone.start hcurrent entries
    obtain ⟨ws, result, after, hws, hlength, hload⟩ :=
      exists_loadsWaves_of_load hcurrent cache entries
    obtain ⟨hnodup, hproper⟩ := hws.nodup_and_proper hstart
    refine .inr ⟨current, ws, result, after, rfl, hws, hlength,
      ⟨hnodup, fun p hp => (hproper p hp).1⟩, ?_, hload⟩
    rintro before wave behind heq ⟨p, hp, hunreadable⟩
    exact hws.behind_eq_nil hstart heq hp hunreadable

/-- A project without any text, in an environment in which every project refers to itself by two
spellings, and to a file that there is not. -/
def Source.selfReferring : Source where
  files := .memory ⟨[⟨⟨"/a"⟩, [], 1⟩], 1, ⟨"/"⟩, []⟩
  globals := ["./a", "x/../a", "b"].foldl
    (fun env i => env.addItem (.ofIdentity referenceType i)) .empty

/-- The project is loaded once, and the wave behind it is the last one. -/
theorem load_ends_self_reference :
    ∃ ws, LoadsWaves .selfReferring none (State.start ⟨"/"⟩ [⟨"a"⟩, ⟨"b/../a"⟩]) ws
        (.error (.load (.unreadable ⟨"/b"⟩ (.missing ⟨"/b"⟩)))) none ∧
      ws.length ≤ 2 ∧ ws.flatten.Nodup := by
  obtain ⟨_, herror, -⟩ | ⟨_, ws, result, after, hcurrent, hws, hlength, ⟨hnodup, -⟩, -, hload⟩ :=
    load_ends .selfReferring none [⟨"a"⟩, ⟨"b/../a"⟩]
  · cases herror
  cases hcurrent
  have hcomputed : load .selfReferring none [⟨"a"⟩, ⟨"b/../a"⟩] =
      (.error (.load (.unreadable ⟨"/b"⟩ (.missing ⟨"/b"⟩))), none) := by decide +kernel
  rw [hcomputed, Prod.mk.injEq] at hload
  obtain ⟨hresult, rfl⟩ := hload
  cases result with
  | error e =>
    cases hresult
    exact ⟨ws, hws, hlength, hnodup⟩
  | ok st =>
    -- No graph is refused for a project that cannot be loaded.
    obtain ⟨_, -, hreason⟩ := mapError_eq_error_iff.1 hresult.symm
    cases hreason

end BuildEngine.Discovery
