import BuildEngine.Proofs.Build.Copying
import BuildEngine.Proofs.Expr.Asking

/-!
# Copying again

A copy that leaves out what is unchanged has nothing to do when it is run again at once
(`Site.copy_again`). Every write in memory is later than all that is there (`FileSystem.IsTimely`).
So a pair is unchanged after its copy, and it stays unchanged until something is written to its
source: a later write to its destination only makes that newer. In the end all pairs are unchanged,
whichever of them were left out (`Site.Copies.isUnchanged_of_mem`).

The pairs of the second run are those of the first: sources and destinations are values, which do
not look at the files, and no expression sees the output of a task.
-/

namespace BuildEngine

open Site (isUnchanged)

/-! ## Times of files in memory -/

namespace Memory

variable {m : Memory} {f file : StoredFile} {files : List StoredFile} {p : Path}

/-- Among files with one inserted, each was there before or has the time of that one. -/
theorem mem_insertFile (h : f ∈ insertFile file files) :
    f ∈ files ∨ f.modified = file.modified := by
  fun_induction insertFile file files with
  | case1 => exact .inr (by rw [List.mem_singleton.1 h])
  | case2 => exact (List.mem_cons.1 h).symm.imp id (fun hf => by rw [hf])
  | case3 g files _ =>
    rcases List.mem_cons.1 h with rfl | hf
    · exact .inr rfl
    · exact .inl (List.mem_cons_of_mem g hf)
  | case4 g files _ ih =>
    rcases List.mem_cons.1 h with rfl | hf
    · exact .inl List.mem_cons_self
    · exact (ih hf).imp (List.mem_cons_of_mem g) id

end Memory

namespace FileSystem

variable {fs fs' : FileSystem} {p q source destination : Path}

/-- Files in memory of which none is newer than the clock, and whose times can be asked for. -/
def IsTimely : FileSystem → Prop
  | memory m => (∀ f ∈ m.files, f.modified ≤ m.clock) ∧ ∀ fault ∈ m.faults, fault.1 ≠ .modified
  | disk _ => False

/-- In timely files a pair is unchanged if both files are there and the first one is not newer. -/
theorem isUnchanged_memory_iff {m : Memory} (h : (memory m).IsTimely) :
    isUnchanged (memory m) p q = true ↔
      ∃ f g, m.find? p = some f ∧ m.find? q = some g ∧ f.modified ≤ g.modified := by
  have hfault (r : Path) : m.hasFault .modified r = false := by
    simpa [Memory.hasFault] using fun op r' hmem hop => absurd hop (h.2 (op, r') hmem)
  simp only [isUnchanged, modified, Memory.modified, hfault, Bool.false_eq_true, if_false]
  cases m.find? p <;> cases m.find? q <;> simp

/-- What a copy between different paths does to files in memory: the destination is written at a
time that no file has reached, and the files of other paths stay. -/
theorem IsTimely.exists_of_copy (h : fs.IsTimely) (hcopy : fs.copy source destination = .ok fs') :
    ∃ m m', fs = memory m ∧ fs' = memory m' ∧ (memory m').IsTimely ∧
      (∃ f, m.find? source = some f) ∧
      (∀ q, destination.same q = false → m'.find? q = m.find? q) ∧
      ∀ q, destination.same q = true →
        ∃ g, m'.find? q = some g ∧ ∀ p f, m.find? p = some f → f.modified ≤ g.modified := by
  cases fs with
  | disk d => exact h.elim
  | memory m =>
    obtain ⟨m', hm, rfl⟩ := map_eq_ok_iff.1 hcopy
    obtain ⟨-, f, hf, rfl⟩ := Memory.copy_eq_ok_iff.1 hm
    refine ⟨m, _, rfl, rfl, ⟨?_, h.2⟩, ⟨f, hf⟩,
      fun q hq => Memory.fileAt?_write_of_ne (of_decide_eq_false hq), ?_⟩
    -- The clock has moved on to the time of the new file, past those of the others.
    · intro g hg
      rcases Memory.mem_insertFile hg with hg | hg
      · exact (h.1 g hg).trans (Nat.le_succ m.clock)
      · exact hg.le
    · intro q hq
      obtain ⟨path, hg⟩ := m.fileAt?_write_self destination f.contents
      rw [Path.same_iff.1 hq, ← Memory.find?_eq_fileAt?] at hg
      refine ⟨_, hg, fun p old hold => ?_⟩
      exact (h.1 old (List.mem_of_find?_eq_some hold)).trans (Nat.le_succ m.clock)

/-- Files stay timely when they are copied. -/
theorem IsTimely.copy (h : fs.IsTimely) (hcopy : fs.copy source destination = .ok fs') :
    fs'.IsTimely := by
  obtain ⟨-, m', -, rfl, htimely, -⟩ := h.exists_of_copy hcopy
  exact htimely

/-- A copy leaves a pair unchanged if it does not write to the source of the pair. -/
theorem isUnchanged_copy (h : fs.IsTimely) (hcopy : fs.copy source destination = .ok fs')
    (hp : p.same destination = false) (hold : isUnchanged fs p q = true) :
    isUnchanged fs' p q = true := by
  obtain ⟨m, m', rfl, rfl, htimely, -, hothers, hwritten⟩ := h.exists_of_copy hcopy
  obtain ⟨f, g, hf, hg, hle⟩ := (isUnchanged_memory_iff h).1 hold
  rw [isUnchanged_memory_iff htimely, hothers p (Path.same_comm .. ▸ hp)]
  cases hq : destination.same q with
  | true =>
    obtain ⟨g', hg', hnewest⟩ := hwritten q hq
    exact ⟨f, g', hf, hg', hnewest p f hf⟩
  | false => exact ⟨f, g, hf, (hothers q hq).trans hg, hle⟩

/-- A pair is unchanged after its copy. -/
theorem isUnchanged_of_copy (h : fs.IsTimely) (hcopy : fs.copy source destination = .ok fs')
    (hsource : source.same destination = false) : isUnchanged fs' source destination = true := by
  obtain ⟨m, m', rfl, rfl, htimely, ⟨f, hf⟩, hothers, hwritten⟩ := h.exists_of_copy hcopy
  obtain ⟨g, hg, hnewest⟩ := hwritten destination (Path.same_self _)
  rw [isUnchanged_memory_iff htimely, hothers source (Path.same_comm .. ▸ hsource)]
  exact ⟨f, g, hf, hg, hnewest source f hf⟩

end FileSystem

/-! ## Runs -/

namespace Site

variable {site : Site} {s s' : Session} {fs fs' : FileSystem} {p q : Path}
  {pairs made : List (Path × Path)} {sources : Expr} {files folder : Option Expr}

/-- A pair whose source no copy writes to stays unchanged. -/
theorem Copies.isUnchanged_of_forall (h : Copies true fs pairs made fs') (hfs : fs.IsTimely)
    (hp : ∀ pair ∈ pairs, p.same pair.2 = false) (hold : isUnchanged fs p q = true) :
    isUnchanged fs' p q = true := by
  induction h with
  | nil => exact hold
  | skip _ _ ih =>
    rw [List.forall_mem_cons] at hp
    exact ih hfs hp.2 hold
  | copy _ hcopy _ ih =>
    rw [List.forall_mem_cons] at hp
    exact ih (hfs.copy hcopy) hp.2 (FileSystem.isUnchanged_copy hfs hcopy hp.1 hold)

/-- All pairs are unchanged in the end, those that were left out as well as those that were
copied. -/
theorem Copies.isUnchanged_of_mem (h : Copies true fs pairs made fs') (hfs : fs.IsTimely)
    (hapart : ∀ p ∈ pairs, ∀ q ∈ pairs, p.1.same q.2 = false) :
    ∀ pair ∈ pairs, isUnchanged fs' pair.1 pair.2 = true := by
  induction h with
  | nil => exact nofun
  | skip hskips hrest ih =>
    have hbehind := fun p hp q hq =>
      hapart p (List.mem_cons_of_mem _ hp) q (List.mem_cons_of_mem _ hq)
    rw [List.forall_mem_cons] at hapart
    -- The pair was unchanged at its turn, and no copy behind it writes to its source.
    refine List.forall_mem_cons.2 ⟨?_, ih hfs hbehind⟩
    exact hrest.isUnchanged_of_forall hfs (List.forall_mem_cons.1 hapart.1).2 hskips.2
  | copy _ hcopy hrest ih =>
    have hbehind := fun p hp q hq =>
      hapart p (List.mem_cons_of_mem _ hp) q (List.mem_cons_of_mem _ hq)
    rw [List.forall_mem_cons] at hapart
    obtain ⟨hself, hothers⟩ := List.forall_mem_cons.1 hapart.1
    refine List.forall_mem_cons.2 ⟨?_, ih (hfs.copy hcopy) hbehind⟩
    exact hrest.isUnchanged_of_forall (hfs.copy hcopy) hothers
      (FileSystem.isUnchanged_of_copy hfs hcopy hself)

/-- Nothing is copied of pairs that are unchanged. -/
theorem copies_of_isUnchanged (h : ∀ pair ∈ pairs, isUnchanged fs pair.1 pair.2 = true) :
    Copies true fs pairs [] fs := by
  induction pairs with
  | nil => exact .nil
  | cons pair pairs ih =>
    rw [List.forall_mem_cons] at h
    exact .skip ⟨rfl, h.1⟩ (ih h.2)

/-- If all pairs are unchanged, all are left out. -/
theorem copyAll_of_isUnchanged
    (h : ∀ pair ∈ pairs, isUnchanged s.workspace.files pair.1 pair.2 = true) :
    ∃ s', site.copyAll true s pairs = (s', .ok []) ∧ s'.Alike s := by
  induction pairs generalizing s with
  | nil => exact ⟨s, rfl, .refl s⟩
  | cons pair pairs ih =>
    rw [List.forall_mem_cons] at h
    have hbehind (t : Session) (ht : t.Alike s) :
        ∃ s', site.copyAll true t pairs = (s', .ok []) ∧ s'.Alike s := by
      obtain ⟨s', hcopy, halike⟩ := ih (s := t) (ht.workspace ▸ h.2)
      exact ⟨s', hcopy, halike.trans ht⟩
    rw [copyAll, if_pos (by simpa using h.1)]
    exact hbehind _ ⟨rfl, rfl⟩

/-! ## The task -/

/-- A task does not see the files, nor the outputs of others, through values. -/
theorem destinations_eq_ok_of_agrees {items : List Item} {targets : List Path}
    (hvalues : ∀ e ∈ files.toList ++ folder.toList, e.IsValue)
    (hagree : (site.context s).Agrees (site.context s'))
    (h : site.destinations s items files folder = .ok targets) :
    site.destinations s' items files folder = .ok targets := by
  unfold destinations at h ⊢
  -- The values ask for no files, so the copies cannot have changed them.
  split at h
  · next files =>
    obtain ⟨texts, htexts, rfl⟩ := map_eq_ok_iff.1 h
    have hfiles := (hvalues files (by simp)).evaluateEntries_eq_ok hagree
      (mapError_eq_ok_iff.1 htexts)
    simp only [hfiles]
    rfl
  · next folder =>
    obtain ⟨text, htext, rfl⟩ := map_eq_ok_iff.1 h
    have hfolder := (hvalues folder (by simp)).evaluateText_eq_ok hagree
      (mapError_eq_ok_iff.1 htext)
    simp only [hfolder]
    rfl
  · cases h

/-- The pairs of value expressions are the same in contexts that agree. -/
theorem copyPairs_eq_ok_of_agrees
    (hvalues : ∀ e ∈ sources :: (files.toList ++ folder.toList), e.IsValue)
    (hagree : (site.context s).Agrees (site.context s'))
    (h : site.copyPairs s sources files folder = .ok pairs) :
    site.copyPairs s' sources files folder = .ok pairs := by
  rw [List.forall_mem_cons] at hvalues
  obtain ⟨items, targets, hitems, htargets, hlength, hpairs⟩ := copyPairs_eq_ok_iff.1 h
  exact copyPairs_eq_ok_iff.2 ⟨items, targets, hvalues.1.evaluateItems_eq_ok hagree hitems,
    destinations_eq_ok_of_agrees hvalues.2 hagree htargets, hlength, hpairs⟩

/-- A copy of values between files in memory, none of which is newer than the clock, leaves out what
is unchanged and writes to none of its sources. If it ends well and is run again at once, it ends
well again, copies no pair, leaves the workspace as it is and reports that nothing was written. -/
theorem copy_again {m : Memory} (hfiles : s.workspace.files = .memory m)
    (hclock : ∀ f ∈ m.files, f.modified ≤ m.clock)
    (hfaults : ∀ fault ∈ m.faults, fault.1 ≠ .modified)
    (hvalues : ∀ e ∈ sources :: (files.toList ++ folder.toList), e.IsValue)
    (hapart : ∀ pairs, site.copyPairs s sources files folder = .ok pairs →
      ∀ p ∈ pairs, ∀ q ∈ pairs, p.1.same q.2 = false)
    (h : site.runTask s (.copy sources files folder true) = (s', .ok ())) :
    ∃ s'' pairs, site.runTask s' (.copy sources files folder true) = (s'', .ok ()) ∧
      site.copyPairs s' sources files folder = .ok pairs ∧
      Copies true s'.workspace.files pairs [] s'.workspace.files ∧
      s''.workspace = s'.workspace ∧
      Environment.SetsOutput copiedFiles "" s'.environment s''.environment := by
  obtain ⟨pairs, made, fs', hpairs, hcopies, hworkspace, henvironment⟩ := exists_of_copy_eq_ok h
  have hunchanged : ∀ pair ∈ pairs, isUnchanged s'.workspace.files pair.1 pair.2 = true := by
    rw [hworkspace]
    rw [hfiles] at hcopies
    exact hcopies.isUnchanged_of_mem ⟨hclock, hfaults⟩ (hapart pairs hpairs)
  have hagree : (site.context s).Agrees (site.context s') := by
    have hoffers := s.environment.setsOutput_setOutput copiedFiles
      (Text.joinEntries (made.map fun pair => pair.2.text))
    rw [← henvironment] at hoffers
    refine ⟨fun name => ?_, fun type => (hoffers.items type).symm, rfl, rfl⟩
    simp only [context, Place.context, Environment.property, hoffers.properties]
  have hpairs' := copyPairs_eq_ok_of_agrees hvalues hagree hpairs
  -- The pairs are those of the first run, and all of them are left out.
  obtain ⟨t, ht, halike⟩ : ∃ t, site.copyAll true s' pairs = (t, .ok []) ∧ t.Alike s' :=
    copyAll_of_isUnchanged hunchanged
  refine ⟨t.setOutput copiedFiles "", pairs, ?_, hpairs', copies_of_isUnchanged hunchanged,
    halike.workspace, ?_⟩
  · simp only [runTask, copy, hpairs', ht]
    rfl
  · rw [Session.setOutput, halike.environment]
    exact Environment.setsOutput_setOutput ..

open Grammar in
/-- Three names are a value expression. -/
theorem isValue_threeNames {a b c : String}
    (htokens : Token.ofText (a ++ ";" ++ b ++ ";" ++ c) =
      [⟨.word, a⟩, ⟨.semicolon, ";"⟩, ⟨.word, b⟩, ⟨.semicolon, ";"⟩, ⟨.word, c⟩])
    (ha : a ≠ "") (hb : b ≠ "") (hc : c ≠ "") : (threeNames a b c).IsValue := by
  have hname {s : String} (hs : s ≠ "") : Template .semicolon [⟨.word, s⟩] [.quoted s] := by
    have hplain : Plain .semicolon [⟨.word, s⟩] := ⟨by simp, .singleton _⟩
    have htemplate := Template.text hplain
    simpa [textPart, hs] using htemplate
  have hsegments : Segments (Token.ofText (a ++ ";" ++ b ++ ";" ++ c))
      [[.quoted a], [.quoted b], [.quoted c]] := by
    rw [htokens]
    exact .cons (hname ha) (.cons (hname hb) (.single (hname hc)))
  exact ⟨_, _, Expr.ofValueText_eq_ok_iff.2 ⟨_, hsegments, rfl⟩, .inl rfl⟩

/-- Of two sources with one destination the second is left out already in the first run, and in the
second run nothing is copied. -/
theorem copy_again_shared_destination :
    let task : Task := .copy (threeNames "a" "b" "c") (some (threeNames "x" "x" "y")) none true
    ∃ s s' s'' : Session, bareSite.runTask s task = (s', .ok ()) ∧
      s'.environment.output? copiedFiles = some "/p/x;/p/y" ∧
        bareSite.runTask s' task = (s'', .ok ()) ∧ s''.workspace = s'.workspace ∧
          s''.environment.output? copiedFiles = some "" := by
  intro task
  let m : Memory := ⟨[⟨⟨"/p/a"⟩, [], 1⟩, ⟨⟨"/p/b"⟩, [], 2⟩, ⟨⟨"/p/c"⟩, [], 3⟩], 3, ⟨"/p"⟩, []⟩
  let s : Session := ⟨.empty, ⟨.memory m, false, []⟩, .empty⟩
  let s' := (bareSite.runTask s task).1
  -- Two sources go to `x`, the second of which is newer than the first copy.
  have hpairs : bareSite.copyPairs s (threeNames "a" "b" "c") (some (threeNames "x" "x" "y")) none =
      .ok [(⟨"/p/a"⟩, ⟨"/p/x"⟩), (⟨"/p/b"⟩, ⟨"/p/x"⟩), (⟨"/p/c"⟩, ⟨"/p/y"⟩)] := by
    decide +kernel
  have hapart : ∀ pairs,
      bareSite.copyPairs s (threeNames "a" "b" "c") (some (threeNames "x" "x" "y")) none =
        .ok pairs → ∀ p ∈ pairs, ∀ q ∈ pairs, p.1.same q.2 = false := by
    rintro _ h
    rw [hpairs] at h
    cases h
    decide +kernel
  have hvalues : ∀ e ∈ [threeNames "a" "b" "c", threeNames "x" "x" "y"], e.IsValue :=
    List.forall_mem_cons.2
      ⟨isValue_threeNames (by decide +kernel) (by decide) (by decide) (by decide),
        List.forall_mem_singleton.2
          (isValue_threeNames (by decide +kernel) (by decide) (by decide) (by decide))⟩
  have hrun : bareSite.runTask s task = (s', .ok ()) := by decide +kernel
  obtain ⟨s'', -, hagain, -, -, hworkspace, houtput⟩ :=
    copy_again (m := m) rfl (by decide) nofun hvalues hapart hrun
  exact ⟨s, s', s'', hrun, by decide +kernel, hagain, hworkspace, houtput.output⟩

end Site

end BuildEngine
