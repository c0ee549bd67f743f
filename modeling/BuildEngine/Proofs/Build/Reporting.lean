import BuildEngine.Build.Projects
import BuildEngine.Proofs.Build.Executions

/-!
# How many errors a build reports

A build that fails has written just one error, and one that ends well or is cancelled has written
none (`Site.errorCount_build`). What decides this is the same for all parts of a build: each has
written what its end calls for (`Site.Reported`). The warnings on the way, of names that name no
target, do not count.
-/

namespace BuildEngine

/-- How many errors a build that ends early writes: one, unless it was cancelled. -/
def BuildError.reports : BuildError → Nat
  | cancelled => 0
  | _ => 1

/-- How many errors an end calls for. -/
def errorsFor {α : Type} : Except BuildError α → Nat
  | .ok _ => 0
  | .error e => e.reports

namespace Site

variable {site : Site} {s s' : Session} {t : Target} {node : TaskNode}
  {nodes ran : List TaskNode} {e : BuildError} {α β : Type}

/-! ## Entries that count -/

/-- An error that is written counts. -/
@[simp]
theorem errorCount_complain (text : String) :
    site.errorCount (site.complain s text) = site.errorCount s + 1 := by
  simp [errorCount, complain]

/-- A warning does not count as an error. -/
@[simp]
theorem errorCount_warn (text : String) :
    site.errorCount (site.warn s text) = site.errorCount s := by
  simp [errorCount, warn]

/-- A message does not count as an error. -/
@[simp]
theorem errorCount_announce (importance : Importance) (text : String) :
    site.errorCount (site.announce s importance text) = site.errorCount s := by
  simp [errorCount, announce]

/-- What started in a session has written the errors that its end calls for. -/
def Reported (site : Site) (s : Session) (b : Built α) : Prop :=
  site.errorCount b.1 = site.errorCount s + errorsFor b.2

/-- What is done before, if it writes no error, may be left out of the account. -/
theorem Reported.of_errorCount_eq {b : Built α} (h : site.Reported s' b)
    (heq : site.errorCount s' = site.errorCount s) : site.Reported s b := by
  rw [Reported, ← heq]
  exact h

/-! ## Targets -/

/-- Tasks that are passed write no error. -/
theorem Passes.errorCount_eq (h : site.Passes s nodes ran s') :
    site.errorCount s' = site.errorCount s := by
  induction h with
  | nil => rfl
  | skip _ _ _ ih => exact ih
  | @run s s₁ s' node nodes ran _ _ hrun hcount _ ih =>
    have htask := site.errorCount_runTask s node.task
    rw [hrun] at htask
    rcases htask with hsame | ⟨hmore, -⟩
    · exact ih.trans hsame
    · replace hmore : site.errorCount s₁ = site.errorCount s + 1 := hmore
      omega

/-- A task is reported by itself or by its target, not by both: it is the target that reports an
error which the task ends with, and then the task has written none. -/
theorem EndsAt.reported (h : site.EndsAt t s node ran s' e) :
    site.Reported s (s', (.error e : Except BuildError Unit)) := by
  cases h with
  | cancelled => rfl
  | condition => exact errorCount_complain _
  | failed _ _ hrun =>
    rw [Reported, errorCount_complain, errorCount_runTask_of_error hrun]
    rfl
  | logged _ _ hrun hcount =>
    -- The count has risen, so it has risen by one.
    have htask := site.errorCount_runTask s node.task
    rw [hrun] at htask
    exact (htask.resolve_left (Nat.ne_of_gt hcount)).1
  | interrupted _ _ hrun => exact errorCount_runTask_of_error hrun

/-- Tasks that stop have written the errors that this calls for. -/
theorem Stops.reported (h : site.Stops t s nodes ran s' e) :
    site.Reported s (s', (.error e : Except BuildError Unit)) := by
  obtain ⟨hpasses, hend⟩ := h
  exact hend.reported.of_errorCount_eq hpasses.errorCount_eq

/-- A target that is run writes the errors that its end calls for. -/
theorem reported_runTarget (s : Session) (t : Target) : site.Reported s (site.runTarget s t) := by
  rcases site.completes_or_aborts t s with ⟨ran, s', h⟩ | ⟨ran, s', e, h⟩
  · rw [h.runTarget_eq]
    cases h with
    | disabled | upToDate => exact errorCount_announce _ _
    | ran _ _ hpasses => exact hpasses.errorCount_eq.trans (errorCount_announce _ _)
  · rw [h.runTarget_eq]
    cases h with
    | condition | upToDate => exact errorCount_complain _
    | ran _ _ hstops => exact hstops.reported.of_errorCount_eq (errorCount_announce _ _)

/-! ## Between targets -/

/-- What is done between targets changes nothing but the log, which gets the errors that its end
calls for. -/
structure Tells (site : Site) (s : Session) (b : Built α) : Prop where
  alike : b.1.Alike s
  reported : site.Reported s b

/-- A warning may be written first. -/
theorem Tells.of_warn {b : Built α} {text : String} (h : site.Tells (site.warn s text) b) :
    site.Tells s b :=
  ⟨h.alike.trans (alike_warn text), h.reported.of_errorCount_eq (errorCount_warn text)⟩

/-- An end that calls for one error is told by writing it. -/
theorem tells_complain {text : String} {e : BuildError} (h : e.reports = 1) :
    site.Tells s (site.complain s text, (.error e : Except BuildError α)) := by
  refine ⟨alike_complain text, ?_⟩
  rw [Reported, errorCount_complain, errorsFor, h]

/-- A good end calls for nothing. -/
theorem tells_ok (a : α) : site.Tells s (s, .ok a) :=
  ⟨.refl s, rfl⟩

/-- Going on with a value tells if it does so for every value; one that cannot be evaluated is told
of. -/
theorem tells_require {subject : String} {value : Except EvalError α} {next : α → Built β}
    (h : ∀ a, site.Tells s (next a)) : site.Tells s (site.require s subject value next) := by
  cases value with
  | ok a => exact h a
  | error e => exact tells_complain rfl

/-- Looking needed targets up tells, as names of no target are warned of only. -/
theorem tells_resolveNeeds (t : Target) (names : List String) :
    site.Tells s ((site.resolveNeeds s t names).1, .ok (site.resolveNeeds s t names).2) := by
  induction names generalizing s with
  | nil => exact tells_ok []
  | cons name names ih =>
    rw [resolveNeeds]
    cases site.project.findTarget? name with
    | some i => exact ⟨ih.alike, ih.reported⟩
    | none => exact ih.of_warn

/-- Evaluating needs tells. -/
theorem tells_needsOf (s : Session) (pr : Progress site.project) (i : site.project.TargetIndex) :
    site.Tells s (site.needsOf s pr i) := by
  rw [needsOf]
  split
  · exact tells_ok _
  · exact tells_ok []
  · exact tells_require fun names => tells_resolveNeeds _ names

/-- Evaluating needs changes nothing but the log. -/
theorem alike_of_needsOf {pr : Progress site.project} {i : site.project.TargetIndex}
    {r : Except BuildError (List site.project.TargetIndex)}
    (h : site.needsOf s pr i = (s', r)) : s'.Alike s := by
  have halike := (site.tells_needsOf s pr i).alike
  rwa [h] at halike

/-- Reading the names that are asked for tells. -/
theorem tells_requestedNames (requested : List String) :
    site.Tells s (site.requestedNames s requested) := by
  -- On the texts: each is written in the language of values and evaluated in turn.
  induction requested generalizing s with
  | nil => exact tells_ok []
  | cons text requested ih =>
    rw [requestedNames]
    cases Expr.ofValueText text with
    | error e => exact tells_complain rfl
    | ok list =>
      refine tells_require fun names => ?_
      have hrest := ih (s := s)
      cases h : site.requestedNames s requested with
      | mk s' result =>
        rw [h] at hrest
        cases result with
        | ok more => exact ⟨hrest.alike, hrest.reported⟩
        | error e => exact hrest

/-- Finding out what is asked for tells. -/
theorem tells_targetNames (s : Session) (requested : List String) :
    site.Tells s (site.targetNames s requested) := by
  rw [targetNames]
  split
  · rw [defaultNames]
    split
    · exact tells_ok _
    · exact tells_require fun names => tells_ok _
  · exact tells_requestedNames requested

/-- Finding out what is asked for changes nothing but the log. -/
theorem alike_of_targetNames {requested : List String} {r : Except BuildError (List String)}
    (h : site.targetNames s requested = (s', r)) : s'.Alike s := by
  have halike := (site.tells_targetNames s requested).alike
  rwa [h] at halike

/-- Putting targets on an agenda tells, as names of no target are warned of only. -/
theorem tells_enlist (pending : List site.project.TargetIndex) (names : List String) :
    site.Tells s ((site.enlist s pending names).1, .ok (site.enlist s pending names).2) := by
  induction names generalizing s pending with
  | nil => exact tells_ok pending
  | cons name names ih =>
    rw [enlist]
    cases site.project.findTarget? name with
    | some i => exact ih (i :: pending)
    | none => exact (ih pending).of_warn

/-! ## Builds -/

/-- Work reports the failure that it ends with, and nothing else. -/
theorem errorCount_work (s : Session) (pr : Progress site.project) (a : Agenda site.project) :
    site.errorCount (site.work s pr a).1 =
      site.errorCount s + errorsFor (site.work s pr a).2.2 := by
  -- To find out what a target needs writes warnings only, unless it fails.
  have hsilent {s s₁ : Session} {pr : Progress site.project} {i : site.project.TargetIndex}
      {needs : List site.project.TargetIndex} (h : site.needsOf s pr i = (s₁, .ok needs)) :
      site.errorCount s₁ = site.errorCount s := by
    have hreported := (site.tells_needsOf s pr i).reported
    rwa [h] at hreported
  fun_induction site.work s pr a with
  | case1 => rfl
  | case2 _ _ _ _ _ _ ih => exact ih
  | case3 s pr next _ _ _ s₁ e hneeds =>
    have hreported := (site.tells_needsOf s pr next).reported
    rw [hneeds] at hreported
    exact hreported
  | case4 _ _ _ _ _ _ _ _ hneeds =>
    rw [errorCount_complain, hsilent hneeds]
    rfl
  | case5 _ _ _ _ _ _ _ _ hneeds _ _ _ ih => rw [ih, hsilent hneeds]
  | case6 _ _ next _ _ _ s₁ _ hneeds _ _ _ hrun =>
    have hreported := site.reported_runTarget s₁ (site.project.target next)
    rw [hrun] at hreported
    rw [← hsilent hneeds]
    exact hreported
  | case7 _ _ next _ _ _ s₁ _ hneeds _ _ hrun ih =>
    have hreported := site.reported_runTarget s₁ (site.project.target next)
    rw [hrun] at hreported
    rw [Agenda.unattach_filter_ne] at ih
    rw [ih, ← hsilent hneeds]
    exact congrArg (· + _) hreported

/-- A build that ends well or is cancelled has written no error, and one that fails has written
one: no failure goes unreported or is reported twice, and a build that wrote an error fails. -/
theorem errorCount_build (s : Session) (pr : Progress site.project) (requested : List String) :
    site.errorCount (site.build s pr requested).1 =
      site.errorCount s + errorsFor (site.build s pr requested).2.2 := by
  have hnames := (site.tells_targetNames s requested).reported
  rw [build]
  -- The failure to evaluate a name is reported at once; afterwards only `work` can fail.
  split
  · next s₁ e h =>
    rw [h] at hnames
    exact hnames
  · next s₁ names h =>
    rw [h] at hnames
    have hsilent : site.errorCount (site.enlist s₁ [] names.reverse).1 = site.errorCount s₁ :=
      (site.tells_enlist [] names.reverse).reported
    rw [errorCount_work, hsilent]
    exact congrArg (· + _) hnames

end Site

end BuildEngine
