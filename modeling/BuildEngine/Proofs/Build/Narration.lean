import BuildEngine.Build.Target

/-!
# What tasks say

A task does not look at the log. Whatever the log holds, a task leaves the same environment and
workspace, ends in the same way and adds the same entries: its parts are `Quiet`, and so is the
task, unless it is one that writes an error and ends well (`Site.runTask_narrates`).

So two sessions that differ in their logs only still do after a task (`Site.alike_runTask`), and a
task that fails has written no error (`Site.errorCount_runTask_of_error`).
-/

namespace BuildEngine

namespace Log

/-- A log with more entries. -/
def extend (l : Log) (entries : List LogEntry) : Log :=
  { l with entries := l.entries ++ entries }

/-- A log with nothing more is the log. -/
@[simp]
theorem extend_nil (l : Log) : l.extend [] = l := by
  simp [extend]

/-- More entries may be added in two goes. -/
@[simp]
theorem extend_extend (l : Log) (es fs : List LogEntry) :
    (l.extend es).extend fs = l.extend (es ++ fs) := by
  simp [extend]

/-- The entries of a level are those that were there and those that are new. -/
theorem count_extend (l : Log) (es : List LogEntry) (logger : Nat) (level : LogLevel) :
    (l.extend es).count logger level =
      l.count logger level + (es.filter fun e => e.logger = logger && e.level = level).length := by
  simp [extend, count]

end Log

namespace Session

variable {s t u : Session}

/-- Sessions in which all but the log is the same. -/
structure Alike (s t : Session) : Prop where
  environment : s.environment = t.environment
  workspace : s.workspace = t.workspace

/-- A session is like itself. -/
theorem Alike.refl (s : Session) : s.Alike s :=
  ⟨rfl, rfl⟩

/-- Sessions like one and the same are alike. -/
theorem Alike.trans (h : s.Alike t) (h' : t.Alike u) : s.Alike u :=
  ⟨h.environment.trans h'.environment, h.workspace.trans h'.workspace⟩

end Session

/-- A part of a task that writes no error, and whose effect does not depend on the log: the session
that `f` leaves, and what it yields, are the same for every log that it adds its entries to. -/
def Quiet {α : Type} (f : Log → Session × α) : Prop :=
  ∃ environment workspace value entries, (∀ e ∈ entries, e.level ≠ LogLevel.error) ∧
    ∀ log, f log = (⟨environment, workspace, log.extend entries⟩, value)

section Quiet

variable {α β : Type} {f : Log → Session × α} {environment : Environment} {workspace : Workspace}

namespace Quiet

/-- What does not write anything is quiet. -/
theorem pure (environment : Environment) (workspace : Workspace) (a : α) :
    Quiet fun log => (⟨environment, workspace, log⟩, a) :=
  ⟨environment, workspace, a, [], nofun, fun log => by rw [log.extend_nil]⟩

/-- Parts that follow on each other are quiet if each of them is. -/
theorem bind {g : Session → α → Session × β} (hf : Quiet f)
    (hg : ∀ environment workspace a, Quiet fun log => g ⟨environment, workspace, log⟩ a) :
    Quiet fun log => g (f log).1 (f log).2 := by
  obtain ⟨environment, workspace, a, es, hes, hf⟩ := hf
  obtain ⟨environment', workspace', b, es', hes', hg⟩ := hg environment workspace a
  refine ⟨environment', workspace', b, es ++ es', List.forall_mem_append.2 ⟨hes, hes'⟩, ?_⟩
  intro log
  show g (f log).1 (f log).2 = _
  rw [hf, ← Log.extend_extend]
  exact hg (log.extend es)

/-- Entries may be added first. -/
theorem extend (hf : Quiet f) {entries : List LogEntry}
    (hentries : ∀ e ∈ entries, e.level ≠ LogLevel.error) :
    Quiet fun log => f (log.extend entries) := by
  obtain ⟨environment, workspace, a, es, hes, hf⟩ := hf
  refine ⟨environment, workspace, a, entries ++ es, List.forall_mem_append.2 ⟨hentries, hes⟩, ?_⟩
  intro log
  rw [← Log.extend_extend]
  exact hf (log.extend entries)

/-- Messages may be written first. -/
theorem say (hf : Quiet f) {logger : Nat} {importance : Importance} {indent text : String} :
    Quiet fun log => f (log.writeLines logger (.message importance) indent text) := by
  refine extend hf ?_
  intro e he
  obtain ⟨line, -, rfl⟩ := List.mem_map.1 he
  exact nofun

/-- A warning may be written first. -/
theorem warn (hf : Quiet f) {logger : Nat} {text : String} :
    Quiet fun log => f (log.write logger .warning text) := by
  refine extend hf ?_
  intro e he
  rw [List.mem_singleton.1 he]
  exact nofun

/-- What is quiet leaves the same in sessions that differ in their logs only. -/
theorem alike (hf : Quiet f) (log log' : Log) : (f log).1.Alike (f log').1 := by
  obtain ⟨environment, workspace, a, entries, -, hf⟩ := hf
  rw [hf log, hf log']
  exact ⟨rfl, rfl⟩

/-- What is quiet writes no error. -/
theorem count_eq (hf : Quiet f) (log : Log) (logger : Nat) :
    (f log).1.log.count logger .error = log.count logger .error := by
  obtain ⟨environment, workspace, a, entries, hentries, hf⟩ := hf
  have hnone : (entries.filter fun e => e.logger = logger && e.level = .error) = [] := by
    simpa using fun e he _ => hentries e he
  rw [hf, Log.count_extend, hnone, List.length_nil, Nat.add_zero]

end Quiet

end Quiet


namespace Site

variable {site : Site} {environment : Environment} {workspace : Workspace}

/-! ## Parts of tasks -/

/-- Going on with a value is quiet if that is quiet for every value. -/
theorem quiet_withValue {α : Type} {v : Except EvalError α} {next : Log → α → TaskResult}
    (h : ∀ a, Quiet fun log => next log a) :
    Quiet fun log => withValue ⟨environment, workspace, log⟩ v (next log) := by
  cases v with
  | ok a => exact h a
  | error e => exact .pure environment workspace _

/-- Making an output of the paths that a part yields is quiet if the part is. -/
theorem quiet_withPaths {name : String} {f : Log → Session × Except TaskError (List Path)}
    (hf : Quiet f) : Quiet fun log => withPaths name (f log) := by
  refine hf.bind (g := fun s result => withPaths name (s, result)) ?_
  intro environment workspace result
  cases result with
  | ok paths => exact .pure (environment.setOutput name _) workspace (Except.ok ())
  | error e => exact .pure environment workspace (Except.error e)

/-- Copying pairs writes messages only. -/
theorem quiet_copyAll (skipUnchanged : Bool) (pairs : List (Path × Path)) :
    Quiet fun log => site.copyAll skipUnchanged ⟨environment, workspace, log⟩ pairs := by
  induction pairs generalizing workspace with
  | nil => exact .pure environment workspace _
  | cons pair pairs ih =>
    obtain ⟨source, destination⟩ := pair
    simp only [copyAll, say]
    by_cases hskip : (skipUnchanged && isUnchanged workspace.files source destination) = true
    · simp only [hskip, if_true]
      exact ih.say
    · simp only [hskip, Bool.false_eq_true, if_false]
      cases workspace.files.copy source destination with
      | error e =>
        exact (Quiet.pure environment workspace
          (Except.error (TaskError.file .copying source e))).say
      | ok files =>
        -- The rest of the pairs is copied in the files that this copy left.
        simp only [Session.setFiles]
        refine (ih.bind (g := fun s copied =>
          (s, copied.map fun paths => destination :: paths)) ?_).say
        exact fun environment workspace copied => .pure environment workspace _

/-- A copy is quiet. -/
theorem quiet_copy (sources : Expr) (files folder : Option Expr) (skipUnchanged : Bool) :
    Quiet fun log =>
      site.copy ⟨environment, workspace, log⟩ sources files folder skipUnchanged := by
  -- The pairs depend on the session without its log, so they are computed once.
  cases h : site.copyPairs ⟨environment, workspace, .empty⟩ sources files folder with
  | error e =>
    have hpairs (log : Log) :
        site.copyPairs ⟨environment, workspace, log⟩ sources files folder = .error e := h
    simp only [copy, hpairs]
    exact .pure environment workspace _
  | ok pairs =>
    have hpairs (log : Log) :
        site.copyPairs ⟨environment, workspace, log⟩ sources files folder = .ok pairs := h
    simp only [copy, hpairs]
    exact quiet_withPaths (quiet_copyAll skipUnchanged pairs)

/-- Deleting files writes messages only. -/
theorem quiet_deleteAll (paths : List Path) :
    Quiet fun log => site.deleteAll ⟨environment, workspace, log⟩ paths := by
  -- On the files. Each one deleted changes the workspace, so that is generalised.
  induction paths generalizing workspace with
  | nil => exact .pure environment workspace _
  | cons path paths ih =>
    simp only [deleteAll, say]
    by_cases hfile : workspace.files.isFile path = true
    · simp only [hfile, if_true]
      cases workspace.files.delete path with
      | error e =>
        exact (Quiet.pure environment workspace
          (Except.error (TaskError.file .deleting path e))).say
      | ok files =>
        simp only [Session.setFiles]
        refine (ih.bind (g := fun s deleted => (s, deleted.map fun paths => path :: paths)) ?_).say
        exact fun environment workspace deleted => .pure environment workspace _
    · simp only [hfile, Bool.false_eq_true, if_false]
      exact ih

/-- A deletion is quiet. -/
theorem quiet_delete (files : Expr) :
    Quiet fun log => site.delete ⟨environment, workspace, log⟩ files := by
  refine quiet_withValue (v := files.evaluateEntries
    (site.context ⟨environment, workspace, .empty⟩)) ?_
  intro texts
  exact quiet_withPaths (quiet_deleteAll _)

/-- Noting what a command left is quiet, whatever its exit code. -/
theorem quiet_conclude (line : String) (ignoreExitCode : Bool) (o : ProcessOutput) :
    Quiet fun log => site.conclude ⟨environment, workspace, log⟩ line ignoreExitCode o := by
  let environment' := environment.setOutput exitCodeOutput (toString o.exitCode)
  by_cases hsuccess : o.isSuccess = true
  · simp only [conclude, hsuccess, if_true]
    exact (Quiet.pure environment' workspace (Except.ok ())).say.say
  · by_cases hignore : ignoreExitCode = true
    · simp only [conclude, hsuccess, hignore, Bool.false_eq_true, if_true, if_false]
      exact (Quiet.pure environment' workspace (Except.ok ())).say.say.say
    · simp only [conclude, hsuccess, hignore, Bool.false_eq_true, if_false]
      exact (Quiet.pure environment' workspace
        (Except.error (TaskError.exitCode line o.exitCode))).say.say

/-- A command sees the workspace only; its course is the same for every log. -/
theorem quiet_execute (command : Expr) (directory : Option Expr) (ignoreExitCode : Bool) :
    Quiet fun log =>
      site.execute ⟨environment, workspace, log⟩ command directory ignoreExitCode := by
  refine quiet_withValue
    (v := site.commandOf ⟨environment, workspace, .empty⟩ command directory) ?_
  rintro ⟨line, folder⟩
  cases hrun : site.runner.runLine line folder workspace with
  | mk answer workspace' =>
    simp only [say, hrun]
    cases answer with
    | error e =>
      exact (Quiet.pure environment workspace' (Except.error (TaskError.ofProcess e))).say
    | ok o => exact (quiet_conclude line ignoreExitCode o).say

/-- The compiler sees the workspace only; what it leaves and answers is the same for every log. -/
theorem quiet_compileRequest (r : CompileRequest) :
    Quiet fun log => site.compileRequest ⟨environment, workspace, log⟩ r := by
  -- The compiler does not see the log, and each of its answers is followed by messages only.
  cases hcompile : site.compiler.compile r workspace with
  | mk answer workspace' =>
    simp only [compileRequest, say, hcompile]
    match answer with
    | .ok output =>
      exact (Quiet.pure (environment.setOutput assemblyOutput r.output.text) workspace'
        (Except.ok ())).say.say
    | .error (.failed code output) =>
      exact (Quiet.pure environment workspace'
        (Except.error (TaskError.compiler (.failed code output)))).say.say
    | .error (.process reason) =>
      exact (Quiet.pure environment workspace'
        (Except.error (TaskError.ofCompile (.process reason)))).say

/-- A compilation is quiet. -/
theorem quiet_compile (t : CompileTask) :
    Quiet fun log => site.compile ⟨environment, workspace, log⟩ t := by
  cases h : site.requestOf ⟨environment, workspace, .empty⟩ t with
  | error e =>
    have hrequest (log : Log) : site.requestOf ⟨environment, workspace, log⟩ t = .error e := h
    simp only [compile, hrequest]
    exact .pure environment workspace _
  | ok r =>
    have hrequest (log : Log) : site.requestOf ⟨environment, workspace, log⟩ t = .ok r := h
    simp only [compile, hrequest]
    exact quiet_compileRequest r

/-- Resolving references writes messages and warnings only. -/
theorem quiet_resolveAll (folders : List Path) (type : String) (references : List Item) :
    Quiet fun log => site.resolveAll folders type ⟨environment, workspace, log⟩ references := by
  induction references with
  | nil => exact .pure environment workspace _
  | cons reference references ih =>
    simp only [resolveAll, say, Site.warn]
    cases (site.candidates reference folders).find? fun p => workspace.files.isFile p with
    | none => exact ih.warn
    | some path =>
      refine (ih.bind (g := fun s items =>
        (s, ⟨type, path.text, reference.metadata⟩ :: items)) ?_).say
      exact fun environment workspace items => .pure environment workspace _

/-- A resolution is quiet. -/
theorem quiet_resolveReferences (references : Expr) (searchPaths : Option Expr)
    (outputItem : String) :
    Quiet fun log => site.resolveReferences ⟨environment, workspace, log⟩ references searchPaths
      outputItem := by
  -- The two values asked for are evaluated in turn, and both leave the session as it is.
  refine quiet_withValue (v := references.evaluateItems
    (site.context ⟨environment, workspace, .empty⟩) "Reference") ?_
  intro items
  refine quiet_withValue (v := site.entriesOf ⟨environment, workspace, .empty⟩ searchPaths) ?_
  intro folders
  refine (quiet_resolveAll (folders.map site.fullPath) outputItem items).bind (g := fun s found =>
    ({ s with environment := found.foldl Environment.addItem s.environment }.setOutput resolvedFiles
      (Text.joinEntries (found.map Item.identity)), Except.ok ())) ?_
  intro environment workspace found
  exact .pure ((found.foldl Environment.addItem environment).setOutput resolvedFiles _) workspace _

/-- Putting the environment in place that definitions left is quiet. -/
theorem quiet_withDefined (defined : Environment.Defined) :
    Quiet fun log => withDefined ⟨environment, workspace, log⟩ defined :=
  .pure defined.1 workspace _

/-- Handing on an output is quiet. -/
theorem quiet_passOutput (parameter : String) (property item : Option String) :
    Quiet fun log => passOutput ⟨environment, workspace, log⟩ parameter property item := by
  by_cases h : property = none ∧ item = none
  · simp only [passOutput, h, and_self, if_true]
    exact .pure environment workspace _
  · simp only [passOutput, h, if_false]
    exact .pure _ workspace _

/-! ## Tasks -/

/-- A task is quiet, or it writes one error, changes nothing else and ends well. -/
theorem runTask_narrates (t : Task) :
    (Quiet fun log => site.runTask ⟨environment, workspace, log⟩ t) ∨
      ∃ text, ∀ log, site.runTask ⟨environment, workspace, log⟩ t =
        (⟨environment, workspace, log.write site.logger .error text⟩, .ok ()) := by
  let context := site.context ⟨environment, workspace, .empty⟩
  -- The error task is the one that writes an error and goes on; all others are quiet.
  cases t with
  | error text =>
    cases h : text.evaluateText context with
    | ok message =>
      refine .inr ⟨message, fun log => ?_⟩
      have h' : text.evaluateText (site.context ⟨environment, workspace, log⟩) = .ok message := h
      simp only [runTask, h', withValue, complain]
    | error e =>
      have h' (log : Log) :
          text.evaluateText (site.context ⟨environment, workspace, log⟩) = .error e := h
      simp only [runTask, h', withValue]
      exact .inl (.pure environment workspace _)
  | message text importance =>
    refine .inl (quiet_withValue (v := text.evaluateText context) fun message => ?_)
    exact (Quiet.pure environment workspace (Except.ok ())).say
  | warning text =>
    refine .inl (quiet_withValue (v := text.evaluateText context) fun message => ?_)
    exact (Quiet.pure environment workspace (Except.ok ())).warn
  | setProperties properties =>
    exact .inl (quiet_withDefined (environment.defineProperties ⟨workspace.files, site.base⟩
      properties))
  | setItems items =>
    exact .inl (quiet_withDefined (environment.defineItemsAll ⟨workspace.files, site.base⟩ items))
  | copy sources files folder skipUnchanged =>
    exact .inl (quiet_copy sources files folder skipUnchanged)
  | delete files => exact .inl (quiet_delete files)
  | execute command directory ignoreExitCode =>
    have hquiet : Quiet fun log =>
        site.execute ⟨environment, workspace, log⟩ command directory ignoreExitCode :=
      quiet_execute command directory ignoreExitCode
    exact .inl hquiet
  | compile t => exact .inl (quiet_compile t)
  | resolveReferences references searchPaths outputItem =>
    exact .inl (quiet_resolveReferences references searchPaths outputItem)
  | output parameter property item => exact .inl (quiet_passOutput parameter property item)

/-! ## Sessions that differ in their logs -/

/-- A message changes nothing but the log. -/
theorem alike_announce {s : Session} (importance : Importance) (text : String) :
    (site.announce s importance text).Alike s :=
  ⟨rfl, rfl⟩

/-- An error that is written changes nothing but the log. -/
theorem alike_complain {s : Session} (text : String) : (site.complain s text).Alike s :=
  ⟨rfl, rfl⟩

/-- A warning changes nothing but the log. -/
theorem alike_warn {s : Session} (text : String) : (site.warn s text).Alike s :=
  ⟨rfl, rfl⟩

/-- Tasks cannot tell sessions apart that differ in their logs only. -/
theorem alike_runTask {s t : Session} (h : s.Alike t) (task : Task) :
    (site.runTask s task).1.Alike (site.runTask t task).1 := by
  obtain ⟨environment, workspace, log⟩ := s
  obtain ⟨_, _, log'⟩ := t
  obtain ⟨rfl, rfl⟩ : environment = _ ∧ workspace = _ := ⟨h.environment, h.workspace⟩
  rcases site.runTask_narrates task with hquiet | ⟨text, herror⟩
  · exact hquiet.alike log log'
  · rw [herror log, herror log']
    exact ⟨rfl, rfl⟩

/-- A task writes no error, or one and then ends well. -/
theorem errorCount_runTask (s : Session) (task : Task) :
    site.errorCount (site.runTask s task).1 = site.errorCount s ∨
      site.errorCount (site.runTask s task).1 = site.errorCount s + 1 ∧
        (site.runTask s task).2 = .ok () := by
  rcases site.runTask_narrates task with hquiet | ⟨text, herror⟩
  · exact .inl (hquiet.count_eq s.log site.logger)
  · refine .inr ?_
    rw [herror s.log]
    simp [errorCount]

/-- A task that fails has written no error. -/
theorem errorCount_runTask_of_error {s s' : Session} {task : Task} {e : TaskError}
    (h : site.runTask s task = (s', .error e)) : site.errorCount s' = site.errorCount s := by
  have hcount := site.errorCount_runTask s task
  rw [h] at hcount
  exact hcount.resolve_right nofun

end Site

end BuildEngine
