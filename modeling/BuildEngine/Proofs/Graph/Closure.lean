import BuildEngine.Proofs.Graph.Assembling
import BuildEngine.Proofs.Graph.Waves

/-!
# The closure of references

Loading entries gives the graph of all that they refer to, directly or through others, in
breadth-first order (`Discovery.load_computes_closure`). Discovery is first said without waves: the
projects of the closure are loaded one after the other, and then assembled (`load_fst`). What the
assembled projects are linked by is then told from the references (`linked_iff`).
-/

namespace BuildEngine

open Relation

namespace Discovery

open ProjectGraph (Linked Assembled)

variable {s : Source} {cache : Option ProjectCache} {current p q : Path}
  {entries roots order : List Path} {loaded : List LoadedProject} {e : DiscoveryError}

/-- The project at the first path refers to the one at the second. -/
def Source.Refers (s : Source) (p q : Path) : Prop :=
  q ∈ s.references p

/-- What roots refer to, directly or through others, and the roots themselves. -/
structure Source.Closure (s : Source) (roots order : List Path) : Prop where
  /-- The order is that of a breadth-first search from the roots. -/
  breadthFirst : BreadthFirst s.references [] roots.eraseDups order
  /-- Every path stands in it once. -/
  nodup : order.Nodup
  /-- It holds what can be reached, and nothing else. -/
  mem_iff : ∀ p, p ∈ order ↔ ∃ r ∈ roots, ReflTransGen s.Refers r p

/-! ## The closure -/

/-- Only so many projects can be loaded, so every closure is finite. -/
theorem exists_closure (hroots : ∀ r ∈ roots, s.files.Proper r) :
    ∃ order, s.Closure roots order ∧ ∀ p ∈ order, s.files.Proper p := by
  have hproper : ∀ r ∈ [] ++ roots.eraseDups, s.files.Proper r :=
    fun r hr => hroots r (List.mem_eraseDups.1 hr)
  have hnodup : ([] ++ roots.eraseDups).Nodup := by
    rw [List.nil_append, ← fresh_nil fun r hr => (hroots r hr).1]
    exact (nodup_fresh [] roots).1
  have hnext : ∀ p, s.files.Proper p → ∀ q ∈ s.references p, s.files.Proper q :=
    fun p => proper_references
  -- Where a reference leads from, a project was loaded.
  have hbound (ps : List Path) (hps : ps.Nodup)
      (h : ∀ p ∈ ps, s.files.Proper p ∧ s.references p ≠ []) : ps.length ≤ s.files.storedCount := by
    refine length_le_of_loadAt hps fun p hp => ⟨(h p hp).1, ?_⟩
    obtain ⟨q, hq⟩ := List.exists_mem_of_ne_nil _ (h p hp).2
    exact exists_loadAt_of_mem_references hq
  obtain ⟨order, horder⟩ :=
    exists_breadthFirst hnext (nodup_references s) hbound [] roots.eraseDups hnodup hproper
  refine ⟨order, ⟨horder, horder.nodup (nodup_references s) hnodup, fun p => ?_⟩,
    horder.forall_mem hnext hproper⟩
  rw [horder.mem_iff]
  simp only [List.mem_eraseDups]
  rfl

/-- A closure holds what its projects refer to. -/
theorem Source.Closure.mem_of_refers (h : s.Closure roots order) (hp : p ∈ order)
    (hpq : s.Refers p q) : q ∈ order := by
  obtain ⟨r, hr, hreach⟩ := (h.mem_iff p).1 hp
  exact (h.mem_iff q).2 ⟨r, hr, hreach.tail hpq⟩

/-! ## Loading without waves -/

/-- The projects of the closure are loaded in their order, and then assembled. -/
theorem load_fst (hcurrent : s.files.currentDirectory = .ok current)
    (hcache : Transparent cache s.files)
    (hclosure : s.Closure (entries.map current.absolutize) order) :
    (load s cache entries).1 =
      (order.mapM s.loadAt).bind fun loaded => (graphOf loaded).mapError .graph := by
  have hnormal : ∀ p ∈ entries.map current.absolutize, p.IsNormal := by
    intro p hp
    obtain ⟨entry, -, rfl⟩ := List.mem_map.1 hp
    exact Path.isNormal_absolutize current entry
  have hwave : (State.start current entries).wave = (entries.map current.absolutize).eraseDups :=
    fresh_nil hnormal
  -- The loop starts with the roots, each once, which is where the closure starts as well.
  have horder := hclosure.breadthFirst
  rw [← hwave] at horder
  have hstart : (State.start current entries).OnWay s order [] := {
    toHasDone := .start hcurrent entries
    loaded := rfl
    order := horder }
  obtain ⟨_, result, _, hwaves, -, hload⟩ := exists_loadsWaves_of_load hcurrent cache entries
  rw [hload, ← hwaves.map_loaded hcache hstart]
  cases result <;> rfl

/-- A path fails to be loaded because its project does, or because that cannot be evaluated. -/
theorem loadAt_eq_error_iff : s.loadAt p = .error e ↔
    (∃ r, Project.load s.files p = .error r ∧ e = .load r) ∨
      ∃ project r, Project.load s.files p = .ok project ∧
        project.evaluate s.globals s.files = .error r ∧ e = .evaluation project.file r := by
  rw [Source.loadAt, evaluateLoaded, bind_eq_error_iff, mapError_eq_error_iff]
  refine or_congr_right (exists_congr fun project => ?_)
  rw [mapError_eq_ok_iff, bind_eq_error_iff, mapError_eq_error_iff]
  -- Nothing goes wrong behind the evaluation.
  have hlast (environment : Environment) :
      (pure ⟨project, environment, references project environment⟩ :
        Except DiscoveryError LoadedProject) ≠ .error e := by
    simp [pure, Except.pure]
  simp [hlast]

/-! ## What was loaded -/

section Loaded

variable (hloaded : order.mapM s.loadAt = .ok loaded) (hproper : ∀ p ∈ order, s.files.Proper p)

include hloaded hproper

/-- The files of loaded projects are the paths they were loaded for. -/
theorem files_of_mapM : files loaded = order := by
  rw [mapM_eq_ok_iff] at hloaded
  induction hloaded with
  | nil => rfl
  | cons hl _ ih =>
    rw [List.forall_mem_cons] at hproper
    rw [files, List.map_cons, ← files, ih hproper.2, file_of_loadAt hproper.1.1 hl]

/-- A loaded project refers to what the source says of its file. -/
theorem references_of_mem_loaded {l : LoadedProject} (hl : l ∈ loaded) :
    s.references l.project.file = l.references := by
  rw [mapM_eq_ok_iff] at hloaded
  induction hloaded with
  | nil => cases hl
  | cons hload _ ih =>
    rw [List.forall_mem_cons] at hproper
    rcases List.mem_cons.1 hl with rfl | hl
    · rw [file_of_loadAt hproper.1.1 hload, references_of_loadAt hload]
    · exact ih hproper.2 hl

/-- Projects are linked to what they refer to. -/
theorem linked_iff : Linked (links loaded) p q ↔ p ∈ order ∧ s.Refers p q := by
  rw [linked_links_iff, ← files_of_mapM hloaded hproper]
  constructor
  · rintro ⟨l, hl, rfl, hq⟩
    rw [← references_of_mem_loaded hloaded hproper hl] at hq
    exact ⟨List.mem_map_of_mem hl, hq⟩
  · rintro ⟨hp, hpq⟩
    obtain ⟨l, hl, rfl⟩ := List.mem_map.1 hp
    rw [Source.Refers, references_of_mem_loaded hloaded hproper hl] at hpq
    exact ⟨l, hl, rfl, hpq⟩

/-- From a path of the closure, what references lead to is what links lead to. -/
theorem linked_reach_iff (hclosure : s.Closure roots order) (hp : p ∈ order) :
    ReflTransGen (Linked (links loaded)) p q ↔ ReflTransGen s.Refers p q := by
  constructor
  · exact ReflTransGen.mono (fun a b hab => ((linked_iff hloaded hproper).1 hab).2) p q
  · intro hpq
    -- The walk stays in the closure, where every reference is a link.
    induction hpq using ReflTransGen.head_induction_on with
    | refl => exact .refl
    | head har _ ih =>
      exact .head ((linked_iff hloaded hproper).2 ⟨hp, har⟩) (ih (hclosure.mem_of_refers hp har))

/-- The links close a cycle where references do. -/
theorem linked_cycle_iff (hclosure : s.Closure roots order) (hp : p ∈ order) :
    TransGen (Linked (links loaded)) p p ↔ TransGen s.Refers p p := by
  rw [TransGen.head'_iff, TransGen.head'_iff]
  refine exists_congr fun q => ?_
  rw [linked_iff hloaded hproper, and_iff_right hp]
  refine and_congr_right fun hpq => ?_
  exact linked_reach_iff hloaded hproper hclosure (hclosure.mem_of_refers hp hpq)

/-- What was loaded makes a graph of its references, unless these lead in a circle. -/
theorem graphOf_closure (hclosure : s.Closure roots order) :
    (∃ g, graphOf loaded = .ok g ∧ g.edges = order.map (fun p => (p, s.references p)) ∧
        (∀ n ∈ g.nodes, n.status = .todo) ∧ ∀ p ∈ order, ¬ TransGen s.Refers p p) ∨
      ∃ p q, graphOf loaded = .error (.cycle p q) ∧ p ∈ order ∧ s.Refers p q ∧
        ReflTransGen s.Refers q p := by
  have hfiles := files_of_mapM hloaded hproper
  have hnodup : (files loaded).Nodup := hfiles ▸ hclosure.nodup
  have hrefs : ∀ l ∈ loaded, l.references.Nodup ∧ ∀ r ∈ l.references, r ∈ files loaded := by
    intro l hl
    rw [← references_of_mem_loaded hloaded hproper hl, hfiles]
    have hmem : l.project.file ∈ order := hfiles ▸ List.mem_map_of_mem hl
    exact ⟨nodup_references s _, fun r hr => hclosure.mem_of_refers hmem hr⟩
  -- The graph is assembled with exactly these edges, or the first edge that closes a cycle is
  -- refused.
  rcases graphOf_cases hnodup (fun p hp => (hproper p (hfiles ▸ hp)).1) hrefs with
    ⟨g, hg, h⟩ | ⟨p, q, herror, hpq, hqp⟩
  · refine .inl ⟨g, hg, ?_, ?_, ?_⟩
    · rw [h.edges_eq, ← hfiles]
      refine List.map_congr_left fun p hp => ?_
      obtain ⟨l, hl, rfl⟩ := List.mem_map.1 hp
      rw [filter_links hnodup hl, references_of_mem_loaded hloaded hproper hl]
    · intro n hn
      obtain ⟨i, hi⟩ := List.mem_iff_getElem?.1 hn
      have hlt : i < (files loaded).length := by
        rw [← h.length_nodes]
        exact (List.getElem?_eq_some_iff.1 hi).1
      exact Option.some.inj ((ProjectGraph.statusAt_of_getElem? hi).symm.trans (h.todo i hlt))
    · intro p hp hcycle
      rw [← linked_cycle_iff hloaded hproper hclosure hp] at hcycle
      exact h.not_transGen hnodup (hfiles.symm ▸ hp) hcycle
  · obtain ⟨hp, hrefers⟩ := (linked_iff hloaded hproper).1 hpq
    refine .inr ⟨p, q, herror, hp, hrefers, ?_⟩
    rwa [linked_reach_iff hloaded hproper hclosure (hclosure.mem_of_refers hp hrefers)] at hqp

end Loaded

/-! ## The outcome -/

/-- How discovery ends for a closure. -/
inductive Source.Outcome (s : Source) (order : List Path) :
    Except DiscoveryError ProjectGraph → Prop
  /-- Everything is loaded, and nothing refers back to itself. -/
  | complete {g : ProjectGraph} : (∀ p ∈ order, ∃ l, s.loadAt p = .ok l) →
      (∀ p ∈ order, ¬ TransGen s.Refers p p) →
        g.edges = order.map (fun p => (p, s.references p)) → (∀ n ∈ g.nodes, n.status = .todo) →
          Outcome s order (.ok g)
  /-- What stands in front of a project is loaded, and it is not. -/
  | failed {before behind : List Path} {p : Path} {e : DiscoveryError} :
      order = before ++ p :: behind → (∀ q ∈ before, ∃ l, s.loadAt q = .ok l) →
        s.loadAt p = .error e → Outcome s order (.error e)
  /-- Everything is loaded, and a project refers to one that leads back to it. -/
  | circular {p q : Path} : (∀ p ∈ order, ∃ l, s.loadAt p = .ok l) → p ∈ order → s.Refers p q →
      ReflTransGen s.Refers q p → Outcome s order (.error (.graph (.cycle p q)))

/-- Loading entries ends as their closure says. -/
theorem load_outcome (hcurrent : s.files.currentDirectory = .ok current)
    (hcache : Transparent cache s.files)
    (hclosure : s.Closure (entries.map current.absolutize) order)
    (hproper : ∀ p ∈ order, s.files.Proper p) : s.Outcome order (load s cache entries).1 := by
  rw [load_fst hcurrent hcache hclosure]
  -- The first path of the order that cannot be loaded decides; without one the graph is built.
  cases hloaded : order.mapM s.loadAt with
  | error e =>
    obtain ⟨before, p, behind, horder, hbefore, hp⟩ := mapM_eq_error_iff.1 hloaded
    exact .failed horder hbefore hp
  | ok loaded =>
    have hall : ∀ p ∈ order, ∃ l, s.loadAt p = .ok l := fun p hp =>
      have ⟨l, _, hl⟩ := exists_of_mapM_eq_ok hloaded hp
      ⟨l, hl⟩
    rw [Except.bind]
    rcases graphOf_closure hloaded hproper hclosure with
      ⟨g, hg, hedges, htodo, hacyclic⟩ | ⟨p, q, hcycle, hp, hpq, hqp⟩
    · rw [hg]
      exact .complete hall hacyclic hedges htodo
    · rw [hcycle]
      exact .circular hall hp hpq hqp

namespace Source.Outcome

variable {result : Except DiscoveryError ProjectGraph}

/-- There is a graph if everything can be loaded and nothing refers back to itself. -/
theorem exists_ok_iff (h : s.Outcome order result) : (∃ g, result = .ok g) ↔
    (∀ p ∈ order, ∃ l, s.loadAt p = .ok l) ∧ ∀ p ∈ order, ¬ TransGen s.Refers p p := by
  cases h with
  | @complete g hall hacyclic => exact iff_of_true ⟨g, rfl⟩ ⟨hall, hacyclic⟩
  | @failed _ _ p e horder _ hp =>
    refine iff_of_false (fun ⟨g, hg⟩ => nomatch hg) fun h => ?_
    obtain ⟨l, hl⟩ := h.1 p (by simp [horder])
    cases hp.symm.trans hl
  | circular _ hp hpq hqp =>
    exact iff_of_false (fun ⟨g, hg⟩ => nomatch hg) fun h => h.2 _ hp (.head' hpq hqp)

/-- The first project that cannot be loaded is the reason. -/
theorem eq_error {before behind : List Path} (h : s.Outcome order result)
    (horder : order = before ++ p :: behind) (hbefore : ∀ q ∈ before, ∃ l, s.loadAt q = .ok l)
    (hp : s.loadAt p = .error e) : result = .error e := by
  have hnot : ¬ ∀ p ∈ order, ∃ l, s.loadAt p = .ok l := by
    intro hall
    obtain ⟨l, hl⟩ := hall p (by simp [horder])
    cases hp.symm.trans hl
  cases h with
  | complete hall => exact absurd hall hnot
  | failed horder' hbefore' hp' =>
    -- Only one path is the first that fails.
    have herror := mapM_eq_error_iff.2 ⟨_, _, _, horder, hbefore, hp⟩
    cases herror.symm.trans (mapM_eq_error_iff.2 ⟨_, _, _, horder', hbefore', hp'⟩)
    rfl
  | circular hall => exact absurd hall hnot

/-- If everything can be loaded, a project that refers back to itself is found. -/
theorem eq_cycle (h : s.Outcome order result) (hall : ∀ p ∈ order, ∃ l, s.loadAt p = .ok l)
    (hcycle : ∃ p ∈ order, TransGen s.Refers p p) :
    ∃ p q, result = .error (.graph (.cycle p q)) ∧
      p ∈ order ∧ s.Refers p q ∧ ReflTransGen s.Refers q p := by
  cases h with
  | complete _ hacyclic =>
    obtain ⟨p, hp, hcycle⟩ := hcycle
    exact absurd hcycle (hacyclic p hp)
  | @failed _ _ p _ horder _ hp =>
    obtain ⟨l, hl⟩ := hall p (by simp [horder])
    cases hp.symm.trans hl
  | @circular p q _ hp hpq hqp => exact ⟨p, q, rfl, hp, hpq, hqp⟩

/-- Of what can be wrong with a graph, only a circle can be. -/
theorem exists_cycle_of_graph {reason : GraphError}
    (h : s.Outcome order (.error (.graph reason))) : ∃ p q, reason = .cycle p q := by
  cases h with
  | failed _ _ hp => rcases loadAt_eq_error_iff.1 hp with ⟨_, -, h⟩ | ⟨_, _, -, -, h⟩ <;> cases h
  | circular => exact ⟨_, _, rfl⟩

end Source.Outcome

/-- Loading entries computes the closure of their references. It succeeds if everything in the
closure can be loaded and nothing refers back to itself, and then the graph has every path of the
closure with its references, none of them handed out. Otherwise the first path that cannot be loaded
is the reason, or else a circle. -/
theorem load_computes_closure (hcurrent : s.files.currentDirectory = .ok current)
    (hcache : Transparent cache s.files) (entries : List Path) :
    ∃ order, s.Closure (entries.map current.absolutize) order ∧
      ((∃ g, (load s cache entries).1 = .ok g) ↔
        (∀ p ∈ order, ∃ l, s.loadAt p = .ok l) ∧ ∀ p ∈ order, ¬ TransGen s.Refers p p) ∧
      (∀ g, (load s cache entries).1 = .ok g →
        g.edges = order.map (fun p => (p, s.references p)) ∧ ∀ n ∈ g.nodes, n.status = .todo) ∧
      (∀ before p behind e, order = before ++ p :: behind →
        (∀ q ∈ before, ∃ l, s.loadAt q = .ok l) → s.loadAt p = .error e →
          (load s cache entries).1 = .error e) ∧
      ((∀ p ∈ order, ∃ l, s.loadAt p = .ok l) → (∃ p ∈ order, TransGen s.Refers p p) →
        ∃ p q, (load s cache entries).1 = .error (.graph (.cycle p q)) ∧
          p ∈ order ∧ s.Refers p q ∧ ReflTransGen s.Refers q p) ∧
      ∀ reason, (load s cache entries).1 = .error (.graph reason) → ∃ p q, reason = .cycle p q := by
  have hroots : ∀ r ∈ entries.map current.absolutize, s.files.Proper r := by
    intro r hr
    obtain ⟨entry, -, rfl⟩ := List.mem_map.1 hr
    exact proper_absolutize hcurrent entry
  obtain ⟨order, hclosure, hproper⟩ := exists_closure hroots
  have houtcome := load_outcome hcurrent hcache hclosure hproper
  refine ⟨order, hclosure, houtcome.exists_ok_iff, ?_, ?_, houtcome.eq_cycle, ?_⟩
  · intro g hg
    rw [hg] at houtcome
    -- A graph comes from the one outcome that has one.
    cases houtcome with
    | complete _ _ hedges htodo => exact ⟨hedges, htodo⟩
  · exact fun before p behind e horder hbefore hp => houtcome.eq_error horder hbefore hp
  · intro reason hreason
    rw [hreason] at houtcome
    exact houtcome.exists_cycle_of_graph

/-- A project that refers to the file beside it. -/
def appText : String :=
  "[[item_group]]\n[[item_group.item]]\ntype = 'ProjectReference'\ninclude = 'x/../lib'\n"

/-- The project, and beside it one without any text. -/
def Source.appAndLib : Source where
  files := .memory ⟨[⟨⟨"/app"⟩, Text.encode appText, 1⟩, ⟨⟨"/lib"⟩, [], 2⟩], 2, ⟨"/"⟩, []⟩
  globals := .empty

/-- The project refers to the other one. -/
theorem references_app : Source.appAndLib.references ⟨"/app"⟩ = [⟨"/lib"⟩] := by decide +kernel

/-- The other one refers to nothing. -/
theorem references_lib : Source.appAndLib.references ⟨"/lib"⟩ = [] := by decide +kernel

/-- Both projects can be loaded, the first one because a reference of it is known. -/
theorem exists_loadAt_appAndLib {p : Path} (hp : p ∈ [⟨"/app"⟩, ⟨"/lib"⟩]) :
    ∃ l, Source.appAndLib.loadAt p = .ok l := by
  rw [List.mem_pair] at hp
  obtain rfl | rfl := hp
  · exact exists_loadAt_of_mem_references (q := ⟨"/lib"⟩)
      (references_app ▸ List.mem_singleton_self _)
  · have hisOk : (Source.appAndLib.loadAt ⟨"/lib"⟩).isOk = true := by decide +kernel
    cases h : Source.appAndLib.loadAt ⟨"/lib"⟩ with
    | ok l => exact ⟨l, rfl⟩
    | error e =>
      rw [h] at hisOk
      cases hisOk

/-- Neither project leads back to itself. -/
theorem acyclic_appAndLib {p : Path} (hp : p ∈ [⟨"/app"⟩, ⟨"/lib"⟩]) :
    ¬TransGen Source.appAndLib.Refers p p := by
  -- Nothing leads on from what is referred to.
  have hend (q : Path) : ¬Source.appAndLib.Refers ⟨"/lib"⟩ q := by
    rw [Source.Refers, references_lib]
    exact List.not_mem_nil
  intro hcycle
  obtain ⟨q, hq, hback⟩ := TransGen.head'_iff.1 hcycle
  rw [List.mem_pair] at hp
  obtain rfl | rfl := hp
  · rw [Source.Refers, references_app, List.mem_singleton] at hq
    subst hq
    obtain heq | ⟨r, hr, -⟩ := ReflTransGen.cases_head hback
    · exact absurd heq (by decide)
    · exact hend r hr
  · exact hend q hq

/-- Two spellings of one path lead to one project, and behind it stands the one it refers to. -/
theorem load_computes_closure_two_spellings :
    ∃ g, (load .appAndLib none [⟨"app"⟩, ⟨"x/../app"⟩]).1 = .ok g ∧
      g.edges = [(⟨"/app"⟩, [⟨"/lib"⟩]), (⟨"/lib"⟩, [])] := by
  obtain ⟨order, hclosure, hok, hgraph, -⟩ := load_computes_closure (s := .appAndLib) rfl
    (transparent_none _) [⟨"app"⟩, ⟨"x/../app"⟩]
  have hroots : ([⟨"app"⟩, ⟨"x/../app"⟩].map (Path.absolutize ⟨"/"⟩)).eraseDups = [⟨"/app"⟩] := by
    decide +kernel
  obtain rfl : order = [⟨"/app"⟩, ⟨"/lib"⟩] := by
    have horder := hclosure.breadthFirst
    rw [hroots] at horder
    simpa [breadthFirst_cons_iff, breadthFirst_nil_iff, references_app, references_lib] using horder
  obtain ⟨g, hg⟩ := hok.2 ⟨fun _ => exists_loadAt_appAndLib, fun _ => acyclic_appAndLib⟩
  refine ⟨g, hg, ?_⟩
  rw [(hgraph g hg).1, List.map_cons, List.map_singleton, references_app, references_lib]

end Discovery

end BuildEngine
