import BuildEngine.Build.Target
import BuildEngine.Proofs.Fallible

/-!
# Targets that are up to date

A target is up to date if the files that it reads and writes are (`FileSystem.UpToDate`), whatever
their order and their number: the newest input and the oldest output stand for all of them
(`Site.areUpToDate_iff`). What makes inputs newer, or outputs older or missing, never brings a
target up to date (`Site.upToDate_iff_times`).
-/

namespace BuildEngine

namespace FileSystem

/-- Outputs are up to date with inputs: there are some of both, the time of every file can be read,
and no output is older than an input. -/
structure UpToDate (files : FileSystem) (inputs outputs : List Path) : Prop where
  inputs_ne_nil : inputs ≠ []
  outputs_ne_nil : outputs ≠ []
  readable : ∀ p ∈ inputs ++ outputs, ∃ time, files.modified p = .ok time
  not_older : ∀ i ∈ inputs, ∀ o ∈ outputs, ∀ input output,
    files.modified i = .ok input → files.modified o = .ok output → input ≤ output

/-- What may have become of a file if outputs are to be no fresher than before: nothing, or it is an
input and newer now, or it is an output and older now or missing. A file that is both is to be left
alone. -/
inductive NoFresher (before after : FileSystem) (inputs outputs : List Path) (p : Path) : Prop
  | same : after.modified p = before.modified p → NoFresher before after inputs outputs p
  | newer {old new : Nat} : p ∈ inputs → p ∉ outputs → before.modified p = .ok old →
      after.modified p = .ok new → old < new → NoFresher before after inputs outputs p
  | older {old new : Nat} : p ∈ outputs → p ∉ inputs → before.modified p = .ok old →
      after.modified p = .ok new → new < old → NoFresher before after inputs outputs p
  | missing : p ∈ outputs → p ∉ inputs → (∀ time, after.modified p ≠ .ok time) →
      NoFresher before after inputs outputs p

variable {before after : FileSystem} {inputs outputs : List Path} {p : Path} {time : Nat}

/-- An input whose time can be read now could be read before, and has not become older. -/
theorem NoFresher.exists_of_input (h : NoFresher before after inputs outputs p) (hp : p ∈ inputs)
    (htime : after.modified p = .ok time) :
    ∃ old, before.modified p = .ok old ∧ old ≤ time := by
  cases h with
  | same hsame => exact ⟨time, hsame ▸ htime, Nat.le_refl time⟩
  | newer _ _ hold hnew hlt =>
    cases hnew.symm.trans htime
    exact ⟨_, hold, Nat.le_of_lt hlt⟩
  | older _ hnot => exact absurd hp hnot
  | missing _ hnot => exact absurd hp hnot

/-- An output whose time can be read now could be read before, and has not become newer. -/
theorem NoFresher.exists_of_output (h : NoFresher before after inputs outputs p) (hp : p ∈ outputs)
    (htime : after.modified p = .ok time) :
    ∃ old, before.modified p = .ok old ∧ time ≤ old := by
  cases h with
  | same hsame => exact ⟨time, hsame ▸ htime, Nat.le_refl time⟩
  | newer _ hnot => exact absurd hp hnot
  | older _ _ hold hnew hlt =>
    cases hnew.symm.trans htime
    exact ⟨_, hold, Nat.le_of_lt hlt⟩
  | missing _ _ hmissing => exact absurd htime (hmissing time)

/-- What is up to date with outputs that are no fresher was so before. -/
theorem UpToDate.of_noFresher (h : after.UpToDate inputs outputs)
    (hfiles : ∀ p ∈ inputs ++ outputs, NoFresher before after inputs outputs p) :
    before.UpToDate inputs outputs where
  inputs_ne_nil := h.inputs_ne_nil
  outputs_ne_nil := h.outputs_ne_nil
  readable := by
    intro p hp
    obtain ⟨time, htime⟩ := h.readable p hp
    rcases List.mem_append.1 hp with hinput | houtput
    · obtain ⟨old, hold, -⟩ := (hfiles p hp).exists_of_input hinput htime
      exact ⟨old, hold⟩
    · obtain ⟨old, hold, -⟩ := (hfiles p hp).exists_of_output houtput htime
      exact ⟨old, hold⟩
  not_older := by
    intro i hi o ho input output hinput houtput
    -- An input was no newer before, and an output no older.
    have hi' := List.mem_append_left outputs hi
    have ho' := List.mem_append_right inputs ho
    obtain ⟨input', hinput'⟩ := h.readable i hi'
    obtain ⟨output', houtput'⟩ := h.readable o ho'
    obtain ⟨_, hold, hile⟩ := (hfiles i hi').exists_of_input hi hinput'
    cases hold.symm.trans hinput
    obtain ⟨_, hold, hole⟩ := (hfiles o ho').exists_of_output ho houtput'
    cases hold.symm.trans houtput
    calc
      input ≤ input' := hile
      _ ≤ output' := h.not_older i hi o ho input' output' hinput' houtput'
      _ ≤ output := hole

end FileSystem

namespace Site

/-! ## Times -/

section Times

variable {files : FileSystem} {paths inputs outputs : List Path} {le : Nat → Nat → Prop}
  {pick : List Nat → Option Nat} {time : Nat}

/-- The times of files are those of each, if all can be read. -/
theorem times_eq (files : FileSystem) (paths : List Path) :
    times files paths = (paths.mapM files.modified).toOption :=
  mapM_toOption files.modified paths

/-- The last of the times of files in an order of times: one of the files has it, and the times of
all of them can be read and are in front of it. -/
structure IsLastTime (files : FileSystem) (le : Nat → Nat → Prop) (paths : List Path)
    (time : Nat) : Prop where
  attained : ∃ p ∈ paths, files.modified p = .ok time
  bounded : ∀ p ∈ paths, ∃ t, files.modified p = .ok t ∧ le t time

/-- The last time is the one that is picked from all times. -/
theorem isLastTime_iff (hpick : ∀ {ts t}, pick ts = some t ↔ t ∈ ts ∧ ∀ t' ∈ ts, le t' t) :
    IsLastTime files le paths time ↔
      ∃ ts, paths.mapM files.modified = .ok ts ∧ pick ts = some time := by
  -- Every time can be read on both sides; what is picked is one of them that bounds the others.
  constructor
  · rintro ⟨⟨p, hp, htime⟩, hbounded⟩
    obtain ⟨ts, hts⟩ := exists_mapM_eq_ok fun q hq => (hbounded q hq).imp fun _ => And.left
    refine ⟨ts, hts, hpick.2 ⟨?_, fun t ht => ?_⟩⟩
    · obtain ⟨_, hmem, ht⟩ := exists_of_mapM_eq_ok hts hp
      cases ht.symm.trans htime
      exact hmem
    · obtain ⟨q, hq, hqt⟩ := exists_of_mem_mapM hts ht
      obtain ⟨_, hqt', hle⟩ := hbounded q hq
      cases hqt'.symm.trans hqt
      exact hle
  · rintro ⟨ts, hts, htime⟩
    obtain ⟨hmem, hgreatest⟩ := hpick.1 htime
    refine ⟨exists_of_mem_mapM hts hmem, fun p hp => ?_⟩
    obtain ⟨t, ht, hpt⟩ := exists_of_mapM_eq_ok hts hp
    exact ⟨t, hpt, hgreatest t ht⟩

/-- If there are files, and the times of all can be read, one of the times is the last. -/
theorem exists_isLastTime (hpick : ∀ {ts t}, pick ts = some t ↔ t ∈ ts ∧ ∀ t' ∈ ts, le t' t)
    (hsome : ∀ {ts t}, t ∈ ts → (pick ts).isSome) (hne : paths ≠ [])
    (hreadable : ∀ p ∈ paths, ∃ t, files.modified p = .ok t) :
    ∃ time, IsLastTime files le paths time := by
  obtain ⟨ts, hts⟩ := exists_mapM_eq_ok hreadable
  obtain ⟨p, hp⟩ := List.exists_mem_of_ne_nil paths hne
  obtain ⟨t, ht, -⟩ := exists_of_mapM_eq_ok hts hp
  obtain ⟨time, htime⟩ := Option.isSome_iff_exists.1 (hsome ht)
  exact ⟨time, (isLastTime_iff hpick).2 ⟨ts, hts, htime⟩⟩

/-- The newest input is compared with the oldest output. -/
theorem areUpToDate_eq_true_iff : areUpToDate files inputs outputs = true ↔
    ∃ newest oldest, IsLastTime files (· ≤ ·) inputs newest ∧
      IsLastTime files (· ≥ ·) outputs oldest ∧ newest ≤ oldest := by
  simp only [isLastTime_iff List.max?_eq_some_iff, isLastTime_iff List.min?_eq_some_iff]
  rw [areUpToDate, times_eq, times_eq]
  -- A time that cannot be read, or a list without any, makes the target outdated.
  cases inputs.mapM files.modified with
  | error e => simp [Except.toOption]
  | ok inputTimes =>
    cases outputs.mapM files.modified with
    | error e => simp [Except.toOption]
    | ok outputTimes =>
      cases hnewest : inputTimes.max? with
      | none => simp [Except.toOption, hnewest]
      | some newest => cases holdest : outputTimes.min? <;> simp [Except.toOption, hnewest, holdest]

/-- The newest input and the oldest output stand for all of them. -/
theorem areUpToDate_iff :
    areUpToDate files inputs outputs = true ↔ files.UpToDate inputs outputs := by
  rw [areUpToDate_eq_true_iff]
  constructor
  · rintro ⟨newest, oldest, hnewest, holdest, hle⟩
    obtain ⟨i, hi, -⟩ := hnewest.attained
    obtain ⟨o, ho, -⟩ := holdest.attained
    refine ⟨List.ne_nil_of_mem hi, List.ne_nil_of_mem ho, ?_, ?_⟩
    · refine List.forall_mem_append.2 ⟨fun p hp => ?_, fun p hp => ?_⟩
      · exact (hnewest.bounded p hp).imp fun _ => And.left
      · exact (holdest.bounded p hp).imp fun _ => And.left
    · -- Between an input and an output there are the newest input and the oldest output.
      intro i hi o ho input output hinput houtput
      obtain ⟨_, htime, hgreatest⟩ := hnewest.bounded i hi
      cases htime.symm.trans hinput
      obtain ⟨_, htime, hleast⟩ := holdest.bounded o ho
      cases htime.symm.trans houtput
      calc
        input ≤ newest := hgreatest
        _ ≤ oldest := hle
        _ ≤ output := hleast
  · intro h
    obtain ⟨hinputs, houtputs⟩ := List.forall_mem_append.1 h.readable
    obtain ⟨newest, hnewest⟩ := exists_isLastTime List.max?_eq_some_iff List.isSome_max?_of_mem
      h.inputs_ne_nil hinputs
    obtain ⟨oldest, holdest⟩ := exists_isLastTime List.min?_eq_some_iff List.isSome_min?_of_mem
      h.outputs_ne_nil houtputs
    -- The two are the times of an input and of an output.
    obtain ⟨i, hi, hinput⟩ := hnewest.attained
    obtain ⟨o, ho, houtput⟩ := holdest.attained
    exact ⟨newest, oldest, hnewest, holdest,
      h.not_older i hi o ho newest oldest hinput houtput⟩

end Times

/-! ## Targets -/

variable {site : Site} {s : Session} {t : Target} {inputs outputs : Expr} {ins outs : List String}

/-- Whether a target with inputs and outputs is up to date is told by the times of the files that
they evaluate to. -/
theorem isUpToDate_eq (hinputs : t.inputs = some inputs) (houtputs : t.outputs = some outputs)
    (hins : inputs.evaluateEntries (site.context s) = .ok ins)
    (houts : outputs.evaluateEntries (site.context s) = .ok outs) :
    site.isUpToDate s t =
      .ok (areUpToDate s.workspace.files (ins.map site.fullPath) (outs.map site.fullPath)) := by
  rw [isUpToDate, hinputs, houtputs]
  dsimp only
  rw [hins, houts]
  rfl

/-- A target with inputs and outputs is up to date exactly if the files that they list are: there
are some of both, the time of each can be read, and no output is older than an input. In any other
session in which they list the same files, inputs are newer at most, and outputs older or missing,
a target that was not up to date is not up to date. -/
theorem upToDate_iff_times (hinputs : t.inputs = some inputs) (houtputs : t.outputs = some outputs)
    (hins : inputs.evaluateEntries (site.context s) = .ok ins)
    (houts : outputs.evaluateEntries (site.context s) = .ok outs) :
    (∃ upToDate, site.isUpToDate s t = .ok upToDate ∧
      (upToDate = true ↔
        s.workspace.files.UpToDate (ins.map site.fullPath) (outs.map site.fullPath))) ∧
    ∀ s' : Session, inputs.evaluateEntries (site.context s') = .ok ins →
      outputs.evaluateEntries (site.context s') = .ok outs →
      (∀ p ∈ ins.map site.fullPath ++ outs.map site.fullPath,
        s.workspace.files.NoFresher s'.workspace.files (ins.map site.fullPath)
          (outs.map site.fullPath) p) →
      site.isUpToDate s t = .ok false → site.isUpToDate s' t = .ok false := by
  refine ⟨⟨_, isUpToDate_eq hinputs houtputs hins houts, areUpToDate_iff⟩, ?_⟩
  intro s' hins' houts' hfiles hstale
  -- Both sessions are asked about the same files.
  rw [isUpToDate_eq hinputs houtputs hins houts, Except.ok.injEq, Bool.eq_false_iff, ne_eq,
    areUpToDate_iff] at hstale
  rw [isUpToDate_eq hinputs houtputs hins' houts', Except.ok.injEq, Bool.eq_false_iff, ne_eq,
    areUpToDate_iff]
  exact fun h => hstale (h.of_noFresher hfiles)

/-- A program that is compiled from two sources, with its symbols. -/
def compiledApp : Target :=
  ⟨"app", none, none, some (.quoted "app.cs;lib.cs"), some (.quoted "app.exe; app.pdb"), []⟩

/-- The place where the program is compiled. -/
def compiledSite : Site where
  project := ⟨⟨"/p/app.keel.toml"⟩, none, [], [], [compiledApp]⟩
  compiler := ⟨fun _ w => (.ok "", w)⟩
  runner := ⟨fun _ w => .ended (some 0) [] [] w⟩
  logger := 1

/-- A session with files of the given times. -/
def sessionOf (times : List (String × Nat)) : Session :=
  let files := times.map fun file => ⟨⟨file.1⟩, [], file.2⟩
  ⟨.empty, ⟨.memory ⟨files, 9, ⟨"/p"⟩, []⟩, false, []⟩, .empty⟩

/-- A source is newer than the program. When it is edited once more, and the symbols are deleted,
the program is still not up to date. -/
theorem upToDate_iff_times_edited_source :
    let s := sessionOf [("/p/app.cs", 1), ("/p/app.exe", 3), ("/p/app.pdb", 5), ("/p/lib.cs", 4)]
    let s' := sessionOf [("/p/app.cs", 1), ("/p/app.exe", 3), ("/p/lib.cs", 7)]
    compiledSite.isUpToDate s compiledApp = .ok false ∧
      compiledSite.isUpToDate s' compiledApp = .ok false := by
  intro s s'
  have hstale : compiledSite.isUpToDate s compiledApp = .ok false := by decide +kernel
  have hins : (Expr.quoted "app.cs;lib.cs").evaluateEntries (compiledSite.context s) =
      .ok ["app.cs", "lib.cs"] := by decide +kernel
  have houts : (Expr.quoted "app.exe; app.pdb").evaluateEntries (compiledSite.context s) =
      .ok ["app.exe", "app.pdb"] := by decide +kernel
  have hpaths : ["app.cs", "lib.cs"].map compiledSite.fullPath ++
      ["app.exe", "app.pdb"].map compiledSite.fullPath =
        [⟨"/p/app.cs"⟩, ⟨"/p/lib.cs"⟩, ⟨"/p/app.exe"⟩, ⟨"/p/app.pdb"⟩] := by decide +kernel
  have hedited : s.workspace.files.modified ⟨"/p/lib.cs"⟩ = .ok 4 ∧
      s'.workspace.files.modified ⟨"/p/lib.cs"⟩ = .ok 7 := by decide +kernel
  have hdeleted :
      s'.workspace.files.modified ⟨"/p/app.pdb"⟩ = .error (.missing ⟨"/p/app.pdb"⟩) := by
    decide +kernel
  -- The output is stale already; a newer input and a missing output leave it so.
  refine ⟨hstale, (upToDate_iff_times rfl rfl hins houts).2 s' (by decide +kernel)
    (by decide +kernel) ?_ hstale⟩
  rw [hpaths]
  simp only [List.forall_mem_cons]
  refine ⟨.same (by decide +kernel), ?_, .same (by decide +kernel), ?_, by simp⟩
  · exact .newer (by decide +kernel) (by decide +kernel) hedited.1 hedited.2 (by decide)
  · exact .missing (by decide +kernel) (by decide +kernel) (by simp [hdeleted])

end Site

end BuildEngine
