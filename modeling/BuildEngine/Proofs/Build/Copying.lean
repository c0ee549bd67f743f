import BuildEngine.Proofs.Build.Narration
import BuildEngine.Proofs.FileSystem.Writing

/-!
# What a copy reports

A copy goes through its pairs in order, in the files that the pairs before have left: it leaves out
those that are unchanged at their turn, if that is asked for, and copies the others
(`Site.Copies`), up to the first copy that fails (`Site.CopiesUpTo`). The destinations of the copied
pairs then hold what their sources held at their turns, and no other file has changed or appeared
(`Site.Leaves`).

What the task leaves and how it ends is told by these copies alone (`Site.copy_reports`): without
pairs nothing happens, after a failure the copies made before it stay and nothing is reported, and
after a good end the output names what was written.
-/

namespace BuildEngine

/-- What setting an output changes: nothing but the value of that output. -/
structure Environment.SetsOutput (name value : String) (before after : Environment) : Prop where
  output : after.output? name = some value
  otherOutputs : ∀ other, other ≠ name → after.output? other = before.output? other
  properties : ∀ name, after.property? name = before.property? name
  items : ∀ type, after.items type = before.items type
  item : ∀ type identity, after.item? type identity = before.item? type identity
  /-- The environment around is the same one. -/
  parent : after.parent? = before.parent?

/-- Setting an output changes nothing but its value. -/
theorem Environment.setsOutput_setOutput (env : Environment) (name value : String) :
    SetsOutput name value env (env.setOutput name value) where
  output := by simp [setOutput, output?, levels]
  otherOutputs other hother := by
    simp only [setOutput, output?, levels, List.findSome?_cons,
      Bindings.get?_set_of_ne _ _ hother]
  properties _ := rfl
  items _ := rfl
  item _ _ := rfl
  parent := rfl

namespace Site

variable {site : Site} {s s' : Session} {skipUnchanged : Bool} {fs fs₁ fs' : FileSystem}
  {pair : Path × Path} {pairs made : List (Path × Path)} {source : Path} {reason : FileError}
  {sources : Expr} {files folder : Option Expr}

/-! ## Pairs -/

/-- Whether a pair is left out: that is asked for, and the pair is unchanged. -/
def Skips (skipUnchanged : Bool) (fs : FileSystem) (pair : Path × Path) : Prop :=
  skipUnchanged = true ∧ isUnchanged fs pair.1 pair.2 = true

/-- Pairs are gone through in order: some are left out, the others are copied, and all copies go
well. The second list are those that are copied. -/
inductive Copies (skipUnchanged : Bool) :
    FileSystem → List (Path × Path) → List (Path × Path) → FileSystem → Prop
  | nil {fs : FileSystem} : Copies skipUnchanged fs [] [] fs
  | skip {fs fs' : FileSystem} {pair : Path × Path} {pairs made : List (Path × Path)} :
    Skips skipUnchanged fs pair → Copies skipUnchanged fs pairs made fs' →
      Copies skipUnchanged fs (pair :: pairs) made fs'
  | copy {fs fs₁ fs' : FileSystem} {pair : Path × Path} {pairs made : List (Path × Path)} :
    ¬Skips skipUnchanged fs pair → fs.copy pair.1 pair.2 = .ok fs₁ →
      Copies skipUnchanged fs₁ pairs made fs' →
        Copies skipUnchanged fs (pair :: pairs) (pair :: made) fs'

/-- Pairs are gone through up to one whose copy fails. -/
inductive CopiesUpTo (skipUnchanged : Bool) : FileSystem → List (Path × Path) →
    List (Path × Path) → FileSystem → Path → FileError → Prop
  | intro {fs fs' : FileSystem} {before behind made : List (Path × Path)} {pair : Path × Path}
      {reason : FileError} :
    Copies skipUnchanged fs before made fs' → ¬Skips skipUnchanged fs' pair →
      fs'.copy pair.1 pair.2 = .error reason →
        CopiesUpTo skipUnchanged fs (before ++ pair :: behind) made fs' pair.1 reason

/-- A pair that is left out may stand in front of pairs whose copy fails. -/
theorem CopiesUpTo.skip (hskip : Skips skipUnchanged fs pair)
    (h : CopiesUpTo skipUnchanged fs pairs made fs' source reason) :
    CopiesUpTo skipUnchanged fs (pair :: pairs) made fs' source reason := by
  obtain ⟨hcopies, hkept, hfails⟩ := h
  exact .intro (.skip hskip hcopies) hkept hfails

/-- A pair that is copied may stand in front of pairs whose copy fails. -/
theorem CopiesUpTo.copy (hkept : ¬Skips skipUnchanged fs pair)
    (hcopy : fs.copy pair.1 pair.2 = .ok fs₁)
    (h : CopiesUpTo skipUnchanged fs₁ pairs made fs' source reason) :
    CopiesUpTo skipUnchanged fs (pair :: pairs) (pair :: made) fs' source reason := by
  obtain ⟨hcopies, hkept', hfails⟩ := h
  exact .intro (.copy hkept hcopy hcopies) hkept' hfails

/-- What is left when some of the pairs have been copied. -/
structure Leaves (skipUnchanged : Bool) (fs : FileSystem) (pairs made : List (Path × Path))
    (fs' : FileSystem) : Prop where
  /-- A pair is delivered unless a later one goes to the same location. At its turn the files are as
  the pairs in front have left them. -/
  delivered : ∀ before pair behind, made = before ++ pair :: behind →
    (∀ later ∈ behind, fs'.locate? later.2 ≠ fs'.locate? pair.2) →
      ∃ front rest turn, pairs = front ++ pair :: rest ∧
        Copies skipUnchanged fs front before turn ∧ turn.Delivers pair fs'
  /-- Paths lead where they led. -/
  leads : ∀ p l, fs.locate? p = some l → fs'.locate? p = some l
  /-- Where no copy went, no file changes, and none appears. -/
  others : ∀ l, (∀ pair ∈ made, fs'.locate? pair.2 ≠ some l) → fs'.fileAt? l = fs.fileAt? l
  /-- Time goes on. -/
  clock : fs.clock ≤ fs'.clock

/-- A pair that is left out leaves everything as it is. -/
theorem Leaves.skip (hskip : Skips skipUnchanged fs pair)
    (h : Leaves skipUnchanged fs pairs made fs') :
    Leaves skipUnchanged fs (pair :: pairs) made fs' where
  delivered before mid behind heq hlast := by
    obtain ⟨front, rest, turn, rfl, hcopies, hdelivers⟩ := h.delivered before mid behind heq hlast
    exact ⟨pair :: front, rest, turn, rfl, .skip hskip hcopies, hdelivers⟩
  leads := h.leads
  others := h.others
  clock := h.clock

/-- A pair that is copied first is delivered, unless one of the others goes to its destination. -/
theorem Leaves.copy (hkept : ¬Skips skipUnchanged fs pair)
    (hcopy : fs.copy pair.1 pair.2 = .ok fs₁) (h : Leaves skipUnchanged fs₁ pairs made fs') :
    Leaves skipUnchanged fs (pair :: pairs) (pair :: made) fs' where
  delivered before mid behind heq hlast := by
    cases before with
    | nil =>
      obtain ⟨rfl, rfl⟩ := List.cons.inj heq
      refine ⟨[], pairs, fs, rfl, .nil, ?_⟩
      refine (FileSystem.copied_of_copy hcopy).delivers.later h.leads (fun l hl => ?_) h.clock
      exact h.others l fun later hlater => hl ▸ hlast later hlater
    | cons first before =>
      obtain ⟨rfl, rfl⟩ := List.cons.inj heq
      obtain ⟨front, rest, turn, rfl, hcopies, hdelivers⟩ := h.delivered before mid behind rfl hlast
      exact ⟨pair :: front, rest, turn, rfl, .copy hkept hcopy hcopies, hdelivers⟩
  leads p l hl := h.leads p l ((FileSystem.copied_of_copy hcopy).leads p l hl)
  others l hl := by
    rw [List.forall_mem_cons] at hl
    -- The first copy did not go there either: where its destination led, it still leads.
    have hfirst : fs₁.locate? pair.2 ≠ some l := fun heq => hl.1 (h.leads _ _ heq)
    exact (h.others l hl.2).trans ((FileSystem.copied_of_copy hcopy).others l hfirst)
  clock := Nat.le_trans (FileSystem.copied_of_copy hcopy).clock h.clock

/-- What copies leave is told by their pairs. -/
theorem Copies.leaves (h : Copies skipUnchanged fs pairs made fs') :
    Leaves skipUnchanged fs pairs made fs' := by
  induction h with
  | nil => exact ⟨by simp, fun _ _ h => h, fun _ _ => rfl, Nat.le_refl _⟩
  | skip hskip _ ih => exact ih.skip hskip
  | copy hkept hcopy _ ih => exact ih.copy hkept hcopy

/-- Going through pairs comes to their end, or to the first copy that fails. -/
theorem copyAll_spec (site : Site) (skipUnchanged : Bool) (s : Session)
    (pairs : List (Path × Path)) :
    match site.copyAll skipUnchanged s pairs with
    | (s', .ok written) => ∃ made fs', Copies skipUnchanged s.workspace.files pairs made fs' ∧
        written = made.map Prod.snd ∧ s'.environment = s.environment ∧
          s'.workspace = { s.workspace with files := fs' }
    | (s', .error e) => ∃ made fs' source reason,
        CopiesUpTo skipUnchanged s.workspace.files pairs made fs' source reason ∧
          e = .file .copying source reason ∧ s'.environment = s.environment ∧
            s'.workspace = { s.workspace with files := fs' } := by
  -- The first pair is left out, or its copy fails, or the others are gone through after its copy.
  fun_induction copyAll site skipUnchanged s pairs with
  | case1 s => exact ⟨[], s.workspace.files, .nil, rfl, rfl, rfl⟩
  | case2 s source destination pairs hskip s₁ ih =>
    have hskips : Skips skipUnchanged s.workspace.files (source, destination) :=
      Bool.and_eq_true_iff.1 hskip
    split at ih
    · obtain ⟨made, fs', hcopies, hrest⟩ := ih
      exact ⟨made, fs', .skip hskips hcopies, hrest⟩
    · obtain ⟨made, fs', path, reason, hcopies, hrest⟩ := ih
      exact ⟨made, fs', path, reason, hcopies.skip hskips, hrest⟩
  | case3 s source destination pairs hskip s₁ reason hcopy =>
    have hkept : ¬Skips skipUnchanged s.workspace.files (source, destination) :=
      fun h => hskip (Bool.and_eq_true_iff.2 h)
    exact ⟨[], s.workspace.files, source, reason, .intro .nil hkept hcopy, rfl, rfl, rfl⟩
  | case4 s source destination pairs hskip s₁ files hcopy s' copied h ih =>
    have hkept : ¬Skips skipUnchanged s.workspace.files (source, destination) :=
      fun h => hskip (Bool.and_eq_true_iff.2 h)
    rw [h] at ih
    cases copied with
    | ok written =>
      obtain ⟨made, fs', hcopies, hwritten, hrest⟩ := ih
      exact ⟨(source, destination) :: made, fs', .copy hkept hcopy hcopies,
        congrArg (destination :: ·) hwritten, hrest⟩
    | error e =>
      obtain ⟨made, fs', path, reason, hcopies, he, hrest⟩ := ih
      exact ⟨(source, destination) :: made, fs', path, reason, hcopies.copy hkept hcopy, he, hrest⟩

/-! ## The task -/

/-- The pairs of a copy are its sources, each with the destination in its place, and there are as
many of the ones as of the others. -/
theorem copyPairs_eq_ok_iff : site.copyPairs s sources files folder = .ok pairs ↔
    ∃ items targets, sources.evaluateItems (site.context s) "SourceFiles" = .ok items ∧
      site.destinations s items files folder = .ok targets ∧ items.length = targets.length ∧
        (items.map fun i => site.fullPath i.identity).zip targets = pairs := by
  unfold copyPairs
  -- The three failures of the code are those the right side rules out.
  constructor
  · intro h
    obtain ⟨items, hitems, h⟩ := exists_of_bind_eq_ok h
    obtain ⟨targets, htargets, h⟩ := exists_of_bind_eq_ok h
    split at h
    · cases h
    · next hlength =>
      exact ⟨items, targets, mapError_eq_ok_iff.1 hitems, htargets, not_not.1 hlength,
        Except.ok.inj h⟩
  · rintro ⟨items, targets, hitems, htargets, hlength, rfl⟩
    rw [mapError_eq_ok_iff.2 hitems]
    simp [bind, Except.bind, htargets, hlength, pure, Except.pure]

/-- Why there are no destinations: an expression cannot be evaluated, or it is not clear where to
copy to. -/
theorem destinations_eq_error {items : List Item} {e : TaskError}
    (h : site.destinations s items files folder = .error e) :
    (∃ reason, e = .evaluation reason) ∨ e = .invalid .copyDestination := by
  unfold destinations at h
  split at h
  · obtain ⟨reason, -, rfl⟩ := mapError_eq_error_iff.1 (map_eq_error_iff.1 h)
    exact .inl ⟨reason, rfl⟩
  · obtain ⟨reason, -, rfl⟩ := mapError_eq_error_iff.1 (map_eq_error_iff.1 h)
    exact .inl ⟨reason, rfl⟩
  · exact .inr (Except.error.inj h).symm

/-- Why there are no pairs: an expression cannot be evaluated, it is not clear where to copy to, or
sources and destinations differ in number. -/
theorem copyPairs_eq_error {e : TaskError}
    (h : site.copyPairs s sources files folder = .error e) :
    (∃ reason, e = .evaluation reason) ∨ e = .invalid .copyDestination ∨
      ∃ n m, e = .lengthMismatch n m := by
  rcases bind_eq_error_iff.1 h with h | ⟨items, -, h⟩
  · obtain ⟨reason, -, rfl⟩ := mapError_eq_error_iff.1 h
    exact .inl ⟨reason, rfl⟩
  rcases bind_eq_error_iff.1 h with h | ⟨targets, -, h⟩
  · exact (destinations_eq_error h).imp id .inl
  split at h
  · cases h
    exact .inr (.inr ⟨_, _, rfl⟩)
  · cases h

/-- A copy that ends well has gone through all pairs. -/
theorem exists_of_copy_eq_ok (h : site.copy s sources files folder skipUnchanged = (s', .ok ())) :
    ∃ pairs made fs', site.copyPairs s sources files folder = .ok pairs ∧
      Copies skipUnchanged s.workspace.files pairs made fs' ∧
      s'.workspace = { s.workspace with files := fs' } ∧
      s'.environment = s.environment.setOutput copiedFiles
        (Text.joinEntries (made.map fun pair => pair.2.text)) := by
  unfold copy at h
  -- The pairs were found, and all of them were copied or were up to date.
  split at h
  · cases h
  · next pairs hpairs =>
    have hspec := copyAll_spec site skipUnchanged s pairs
    split at hspec
    · next hcopy =>
      obtain ⟨made, fs', hcopies, rfl, henvironment, hworkspace⟩ := hspec
      rw [hcopy] at h
      obtain ⟨rfl, -⟩ := Prod.mk.inj h
      refine ⟨pairs, made, fs', hpairs, hcopies, hworkspace, ?_⟩
      rw [Session.setOutput, henvironment, List.map_map]
      rfl
    · next hcopy =>
      rw [hcopy] at h
      cases h

/-- A copy that fails has no pairs, or it has gone through them up to a copy that fails. -/
theorem copy_eq_error {e : TaskError}
    (h : site.copy s sources files folder skipUnchanged = (s', .error e)) :
    site.copyPairs s sources files folder = .error e ∧ s' = s ∨
      ∃ pairs made fs' source reason, site.copyPairs s sources files folder = .ok pairs ∧
        CopiesUpTo skipUnchanged s.workspace.files pairs made fs' source reason ∧
        e = .file .copying source reason ∧ s'.environment = s.environment ∧
        s'.workspace = { s.workspace with files := fs' } := by
  unfold copy at h
  -- The task fails in front of the copies, or at one of them.
  split at h
  · next hpairs =>
    obtain ⟨rfl, he⟩ := Prod.mk.inj h
    obtain rfl := Except.error.inj he
    exact .inl ⟨hpairs, rfl⟩
  · next pairs hpairs =>
    have hspec := copyAll_spec site skipUnchanged s pairs
    split at hspec
    · next hcopy =>
      rw [hcopy] at h
      cases h
    · next hcopy =>
      obtain ⟨made, fs', source, reason, hrest⟩ := hspec
      rw [hcopy] at h
      obtain ⟨rfl, he⟩ := Prod.mk.inj h
      obtain rfl := Except.error.inj he
      exact .inr ⟨pairs, made, fs', source, reason, hpairs, hrest⟩

/-- What a copy reports is what it did. Without pairs it changes nothing. If it fails at a pair, the
pairs in front of that have been gone through, and there is no output. If it ends well, all pairs
have been, and the output names the destinations that were written. In both cases those destinations
hold what their sources held, and no other file changes or appears. -/
theorem copy_reports (site : Site) (s : Session) (sources : Expr) (files folder : Option Expr)
    (skipUnchanged : Bool) :
    match site.runTask s (.copy sources files folder skipUnchanged) with
    | (s', .ok ()) => ∃ pairs made fs', site.copyPairs s sources files folder = .ok pairs ∧
        Copies skipUnchanged s.workspace.files pairs made fs' ∧
        Leaves skipUnchanged s.workspace.files pairs made fs' ∧
        s'.workspace = { s.workspace with files := fs' } ∧
        Environment.SetsOutput copiedFiles
          (Text.joinEntries (made.map fun pair => pair.2.text)) s.environment s'.environment
    | (s', .error (.file action path reason)) =>
        ∃ before behind made fs' destination,
          site.copyPairs s sources files folder = .ok (before ++ (path, destination) :: behind) ∧
          Copies skipUnchanged s.workspace.files before made fs' ∧
          Leaves skipUnchanged s.workspace.files before made fs' ∧
          ¬Skips skipUnchanged fs' (path, destination) ∧ fs'.copy path destination = .error reason ∧
          action = .copying ∧ s'.workspace = { s.workspace with files := fs' } ∧
          s'.environment = s.environment
    | (s', .error e) =>
        ((∃ reason, e = .evaluation reason) ∨ e = .invalid .copyDestination ∨
            ∃ n m, e = .lengthMismatch n m) ∧
          s'.workspace = s.workspace ∧ s'.environment = s.environment := by
  rw [runTask]
  split
  · next s' h =>
    obtain ⟨pairs, made, fs', hpairs, hcopies, hworkspace, henvironment⟩ := exists_of_copy_eq_ok h
    refine ⟨pairs, made, fs', hpairs, hcopies, hcopies.leaves, hworkspace, ?_⟩
    rw [henvironment]
    exact Environment.setsOutput_setOutput ..
  · next s' action path reason h =>
    rcases copy_eq_error h with ⟨hpairs, -⟩ | ⟨pairs, made, fs', _, _, hpairs, hcopies, he, hrest⟩
    · rcases copyPairs_eq_error hpairs with ⟨_, he⟩ | he | ⟨_, _, he⟩ <;> cases he
    · obtain ⟨rfl, rfl, rfl⟩ := TaskError.file.inj he
      obtain ⟨hcopies, hkept, hfails⟩ := hcopies
      exact ⟨_, _, made, fs', _, hpairs, hcopies, hcopies.leaves, hkept, hfails, rfl, hrest.2,
        hrest.1⟩
  · next s' e hfile h =>
    -- Only a copy of a pair ends with an error about a file.
    rcases copy_eq_error h with ⟨hpairs, rfl⟩ | ⟨_, _, _, path, reason, _, _, he, _⟩
    · exact ⟨copyPairs_eq_error hpairs, rfl, rfl⟩
    · exact absurd he (hfile .copying path reason)

/-- Three names with a `;` between them are a list of three. -/
def threeNames (a b c : String) : Expr :=
  .list [.concat [.quoted a], .concat [.quoted b], .concat [.quoted c]]

/-- A site with nothing to build. -/
def bareSite : Site where
  project := ⟨⟨"/p/app.keel.toml"⟩, none, [], [], []⟩
  compiler := ⟨fun _ w => (.ok "", w)⟩
  runner := ⟨fun _ w => .ended (some 0) [] [] w⟩
  logger := 1

/-- Two sources have one destination, and a third one is missing. The copy fails there, after the
destination was given what the second source holds. -/
theorem copy_reports_missing_source :
    let task : Task := .copy (threeNames "a" "b" "c") (some (threeNames "x" "x" "y")) none false
    let m : Memory := ⟨[⟨⟨"/p/a"⟩, [1], 1⟩, ⟨⟨"/p/b"⟩, [2], 2⟩], 2, ⟨"/p"⟩, []⟩
    ∃ s s' : Session, ∃ made, s.workspace.files = .memory m ∧
      bareSite.runTask s task = (s', .error (.file .copying ⟨"/p/c"⟩ (.missing ⟨"/p/c"⟩))) ∧
      Leaves false (.memory m) [(⟨"/p/a"⟩, ⟨"/p/x"⟩), (⟨"/p/b"⟩, ⟨"/p/x"⟩)] made
        s'.workspace.files ∧
      s'.workspace.files.fileAt? (.components (Path.components ⟨"/p/x"⟩)) = some ([2], 4) ∧
      s'.environment.output? copiedFiles = none := by
  intro task m
  let s : Session := ⟨.empty, ⟨.memory m, false, []⟩, .empty⟩
  let s' := (bareSite.runTask s task).1
  have hrun : bareSite.runTask s task =
      (s', .error (.file .copying ⟨"/p/c"⟩ (.missing ⟨"/p/c"⟩))) := by decide +kernel
  have hpairs : bareSite.copyPairs s (threeNames "a" "b" "c") (some (threeNames "x" "x" "y")) none =
      .ok [(⟨"/p/a"⟩, ⟨"/p/x"⟩), (⟨"/p/b"⟩, ⟨"/p/x"⟩), (⟨"/p/c"⟩, ⟨"/p/y"⟩)] := by
    decide +kernel
  have hreports := copy_reports bareSite s (threeNames "a" "b" "c")
    (some (threeNames "x" "x" "y")) none false
  rw [hrun] at hreports
  obtain ⟨before, behind, made, fs', destination, hsplit, -, hleaves, -, -, -, hworkspace, henv⟩ :=
    hreports
  -- The pair of the missing source is the third one.
  have hbefore : before = [(⟨"/p/a"⟩, ⟨"/p/x"⟩), (⟨"/p/b"⟩, ⟨"/p/x"⟩)] := by
    rw [hpairs, Except.ok.injEq] at hsplit
    rcases before with _ | ⟨p₁, _ | ⟨p₂, _ | ⟨p₃, before⟩⟩⟩ <;> simp at hsplit ⊢
    exact ⟨hsplit.1.symm, hsplit.2.1.symm⟩
  have hfiles : s'.workspace.files = fs' := by rw [hworkspace]
  refine ⟨s, s', made, rfl, hrun, ?_, by decide +kernel, ?_⟩
  · rw [hfiles, ← hbefore]
    exact hleaves
  · rw [henv]
    rfl

end Site

end BuildEngine
