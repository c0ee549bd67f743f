import BuildEngine.Graph.Discovery
import BuildEngine.Proofs.Graph.Consistency
import BuildEngine.Proofs.Path.Normal

/-!
# Assembling graphs

A graph is assembled by registering all projects and then linking them one by one. What a graph has
been made of up to now is said by files and links between them (`Assembled`), so that a search in
the graph is one along the links (`Assembled.needs_reach_iff`). Assembling ends with all links in
the graph or at the first one that closes a cycle (`Discovery.graphOf_cases`).
-/

namespace BuildEngine

open Relation

namespace ProjectGraph

variable {g : ProjectGraph} {files : List Path} {links new : List (Path × Path)} {i j : Nat}
  {p q : Path}

/-- The first file depends on the second one by a link. -/
def Linked (links : List (Path × Path)) (p q : Path) : Prop :=
  (p, q) ∈ links

/-- A graph is made of files, in their order, and of links, those of each file in their order.
Nothing has been handed out. -/
structure Assembled (g : ProjectGraph) (files : List Path) (links : List (Path × Path)) : Prop where
  /-- Both ends of an edge know it, and no edges close a cycle. -/
  wellShaped : g.WellShaped
  /-- The projects are those of the files. -/
  fileAt?_eq : ∀ i, g.fileAt? i = files[i]?
  /-- Every project waits to be built. -/
  todo : ∀ i < files.length, g.statusAt i = some .todo
  /-- A project depends on what its file is linked to. -/
  dependencies : ∀ i p, files[i]? = some p →
    (g.dependenciesAt i).map (files[·]?) = (links.filter (·.1 = p)).map fun l => some l.2

/-- The file at a place is that of the project there. -/
theorem fileAt?_eq_map (g : ProjectGraph) (i : Nat) :
    g.fileAt? i = (g.projectAt? i).map Project.file := by
  rw [fileAt?, projectAt?, Option.map_map]
  rfl

/-! ## Files and numbers -/

namespace Assembled

/-- Where a file stands there is a project with it. -/
theorem exists_projectAt? (h : Assembled g files links) (hp : files[i]? = some p) :
    ∃ project, g.projectAt? i = some project ∧ project.file = p := by
  rw [← h.fileAt?_eq, fileAt?_eq_map] at hp
  exact Option.map_eq_some_iff.1 hp

/-- A project is found in the place of its file. -/
theorem index?_eq_some (h : Assembled g files links) (hp : files[i]? = some p) :
    g.index? p = some i := by
  obtain ⟨project, hproject, rfl⟩ := h.exists_projectAt? hp
  exact (h.wellShaped.index?_eq_some_iff _).2 ⟨project, hproject, decide_eq_true rfl⟩

/-- Normal paths have no second spelling, so what is not among the files has no number. -/
theorem index?_eq_none (h : Assembled g files links) (hnormal : ∀ q ∈ files, q.IsNormal)
    (hp : p.IsNormal) (hnew : p ∉ files) : g.index? p = none := by
  rw [Option.eq_none_iff_forall_ne_some]
  intro i hi
  obtain ⟨project, hproject, hsame⟩ := (h.wellShaped.index?_eq_some_iff p).1 hi
  have hfile : project.file ∈ files := by
    refine List.mem_of_getElem? (i := i) ?_
    rw [← h.fileAt?_eq, fileAt?_eq_map, hproject]
    rfl
  exact hnew (Path.eq_of_same (hnormal _ hfile) hp hsame ▸ hfile)

/-- The files of the projects are the files. -/
theorem nodes_map (h : Assembled g files links) :
    g.nodes.map (fun n => n.project.file) = files := by
  refine List.ext_getElem? fun i => ?_
  rw [List.getElem?_map]
  exact h.fileAt?_eq i

/-- There are as many projects as files. -/
theorem length_nodes (h : Assembled g files links) : g.nodes.length = files.length := by
  rw [← h.nodes_map, List.length_map]

/-! ## Links and needs -/

/-- What a project needs it is linked to. -/
theorem exists_linked (h : Assembled g files links) (hp : files[i]? = some p) (hij : g.Needs i j) :
    ∃ q, files[j]? = some q ∧ Linked links p q := by
  have hmem : files[j]? ∈ (g.dependenciesAt i).map (files[·]?) := List.mem_map_of_mem hij
  rw [h.dependencies i p hp] at hmem
  obtain ⟨⟨p', q⟩, hlink, hq⟩ := List.mem_map.1 hmem
  obtain ⟨hpq, hp'⟩ := List.mem_filter.1 hlink
  obtain rfl : p' = p := of_decide_eq_true hp'
  exact ⟨q, hq.symm, hpq⟩

/-- What a project is linked to it needs. -/
theorem exists_needs (h : Assembled g files links) (hp : files[i]? = some p)
    (hpq : Linked links p q) : ∃ j, files[j]? = some q ∧ g.Needs i j := by
  have hmem : some q ∈ (links.filter (·.1 = p)).map fun l => some l.2 :=
    List.mem_map.2 ⟨(p, q), List.mem_filter.2 ⟨hpq, decide_eq_true rfl⟩, rfl⟩
  rw [← h.dependencies i p hp] at hmem
  obtain ⟨j, hij, hj⟩ := List.mem_map.1 hmem
  exact ⟨j, hj, hij⟩

/-- What a project needs, directly or through others, is what its file leads to. -/
theorem needs_reach_iff (h : Assembled g files links) (hnodup : files.Nodup)
    (hp : files[i]? = some p) (hq : files[j]? = some q) :
    ReflTransGen g.Needs i j ↔ ReflTransGen (Linked links) p q := by
  constructor
  -- Both walks are followed from their beginning, number by number and file by file.
  · intro hij
    induction hij using ReflTransGen.head_induction_on generalizing p with
    | refl =>
      obtain rfl : p = q := Option.some.inj (hp.symm.trans hq)
      exact .refl
    | head hik _ ih =>
      obtain ⟨r, hr, hpr⟩ := h.exists_linked hp hik
      exact .head hpr (ih hr)
  · intro hpq
    induction hpq using ReflTransGen.head_induction_on generalizing i with
    | refl =>
      obtain rfl : i = j :=
        (List.getElem?_inj (List.getElem?_eq_some_iff.1 hp).1 hnodup).1 (hp.trans hq.symm)
      exact .refl
    | head hpr _ ih =>
      obtain ⟨k, hk, hik⟩ := h.exists_needs hp hpr
      exact .head hik (ih hk)

/-- The links of a graph close no cycle. -/
theorem not_transGen (h : Assembled g files links) (hnodup : files.Nodup) (hp : p ∈ files) :
    ¬ TransGen (Linked links) p p := by
  intro hcycle
  obtain ⟨i, hi⟩ := List.mem_iff_getElem?.1 hp
  obtain ⟨q, hpq, hqp⟩ := TransGen.head'_iff.1 hcycle
  obtain ⟨j, hj, hij⟩ := h.exists_needs hi hpq
  exact h.wellShaped.acyclic i (TransGen.head' hij ((h.needs_reach_iff hnodup hj hi).2 hqp))

/-- The edges of a graph are its links. -/
theorem edges_eq (h : Assembled g files links) :
    g.edges = files.map fun p => (p, (links.filter (·.1 = p)).map Prod.snd) := by
  -- At each position: the file, and the dependencies recorded for it in the order of the links.
  refine List.ext_getElem? fun i => ?_
  rw [edges, List.getElem?_map, List.getElem?_map, ← h.fileAt?_eq, fileAt?, Option.map_map]
  cases hn : g.nodes[i]? with
  | none => rfl
  | some n =>
    have hfile : files[i]? = some n.project.file := by
      rw [← h.fileAt?_eq, fileAt?, hn]
      rfl
    have hdependencies := h.dependencies i _ hfile
    simp only [dependenciesAt, hn] at hdependencies
    have hfilterMap : n.dependencies.filterMap g.fileAt? =
        (n.dependencies.map (files[·]?)).filterMap id := by
      rw [List.filterMap_map]
      exact List.filterMap_congr fun j _ => h.fileAt?_eq j
    rw [Option.map_some, Option.map_some, hfilterMap, hdependencies, List.filterMap_map,
      ← List.filterMap_eq_map]
    rfl

/-! ## One more project, one more link -/

/-- The empty graph is made of nothing. -/
theorem empty : Assembled .empty [] [] where
  wellShaped := wellShaped_empty
  fileAt?_eq i := rfl
  todo i hi := absurd hi (Nat.not_lt_zero i)
  dependencies i p hp := by cases hp

/-- A project that is added comes last. -/
theorem register (h : Assembled g files []) {project : Project}
    (hnew : g.index? project.file = none) (environment : Environment) :
    Assembled (g.register project environment) (files ++ [project.file]) [] where
  wellShaped := h.wellShaped.register hnew environment
  fileAt?_eq i := by
    rw [fileAt?_eq_map, projectAt?_register, getElem?_concat, h.length_nodes, ← h.fileAt?_eq,
      fileAt?_eq_map]
    split <;> rfl
  todo i hi := by
    rw [List.length_append, List.length_singleton] at hi
    rw [statusAt_register, h.length_nodes]
    split
    · rfl
    · exact h.todo i (by omega)
  dependencies i p _ := by
    -- No link has been made, so what a node needs would have to come from nowhere.
    have hnone : (g.register project environment).dependenciesAt i = [] := by
      refine List.eq_nil_iff_forall_not_mem.2 fun j hj => ?_
      have hij : g.Needs i j := by rwa [← needs_register g project environment]
      obtain ⟨q, hq⟩ : ∃ q, files[i]? = some q :=
        ⟨_, List.getElem?_eq_getElem (h.length_nodes ▸ hij.lt_length)⟩
      obtain ⟨_, -, hlinked⟩ := h.exists_linked hq hij
      exact List.not_mem_nil hlinked
    rw [hnone]
    rfl

/-- Where a file stands there is a place. -/
theorem lt_length (h : Assembled g files links) (hp : files[i]? = some p) : i < g.nodes.length := by
  rw [h.length_nodes]
  exact (List.getElem?_eq_some_iff.1 hp).1

/-- Nothing has been handed out. -/
theorem statusAt_eq (h : Assembled g files links) (hp : files[i]? = some p) :
    g.statusAt i = some .todo :=
  h.todo i (List.getElem?_eq_some_iff.1 hp).1

/-- A dependency that is entered is the last link. -/
theorem link (h : Assembled g files links) (hnodup : files.Nodup) (hi : files[i]? = some p)
    (hj : files[j]? = some q) (hacyclic : ¬ ReflTransGen g.Needs j i) :
    Assembled (g.link i j true) files (links ++ [(p, q)]) where
  wellShaped := h.wellShaped.link (h.lt_length hi) (h.lt_length hj) hacyclic true
  fileAt?_eq k := by rw [fileAt?_eq_map, projectAt?_link, ← fileAt?_eq_map, h.fileAt?_eq]
  todo k hk := by rw [statusAt_link, h.todo k hk]
  dependencies k r hk := by
    rw [dependenciesAt_link g i j true k (h.lt_length hi), List.filter_append, List.map_append,
      ← h.dependencies k r hk]
    -- Only the project that the link begins at gets one more dependency.
    by_cases hki : k = i
    · subst hki
      obtain rfl : p = r := Option.some.inj (hi.symm.trans hk)
      simp [hj]
    · have hpr : p ≠ r := by
        rintro rfl
        exact hki ((List.getElem?_inj (List.getElem?_eq_some_iff.1 hk).1 hnodup).1
          (hk.trans hi.symm))
      simp [hki, hpr]

/-- A new link that closes no cycle is entered. -/
theorem addDependency (h : Assembled g files links) (hnodup : files.Nodup) (hp : p ∈ files)
    (hq : q ∈ files) (hnew : (p, q) ∉ links) (hacyclic : ¬ ReflTransGen (Linked links) q p) :
    ∃ g', g.addDependency p q = .ok g' ∧ Assembled g' files (links ++ [(p, q)]) := by
  obtain ⟨i, hi⟩ := List.mem_iff_getElem?.1 hp
  obtain ⟨j, hj⟩ := List.mem_iff_getElem?.1 hq
  rw [← h.needs_reach_iff hnodup hj hi] at hacyclic
  -- A link that is entered twice would be left out the second time.
  have hneeds : ¬ g.Needs i j := by
    intro hij
    obtain ⟨q', hq', hlinked⟩ := h.exists_linked hi hij
    obtain rfl : q = q' := Option.some.inj (hj.symm.trans hq')
    exact hnew hlinked
  refine ⟨g.link i j true, addDependency_eq_ok_iff.2 ⟨i, j, h.index?_eq_some hi,
    h.index?_eq_some hj, h.statusAt_eq hi, hacyclic, ?_⟩, h.link hnodup hi hj hacyclic⟩
  exact (connect_of_unfinished hneeds (.inl (h.statusAt_eq hj))).symm

/-- A link that closes a cycle is refused. -/
theorem addDependency_of_reach (h : Assembled g files links) (hnodup : files.Nodup) (hp : p ∈ files)
    (hq : q ∈ files) (hcycle : ReflTransGen (Linked links) q p) :
    g.addDependency p q = .error (.cycle p q) := by
  obtain ⟨i, hi⟩ := List.mem_iff_getElem?.1 hp
  obtain ⟨j, hj⟩ := List.mem_iff_getElem?.1 hq
  rw [← h.needs_reach_iff hnodup hj hi, ← dependsOn_iff] at hcycle
  unfold ProjectGraph.addDependency index
  rw [h.index?_eq_some hi, h.index?_eq_some hj]
  simp [bind, Except.bind, h.statusAt_eq hi, hcycle]

/-- Links are entered one after the other, up to the first that closes a cycle. -/
theorem foldlM_addDependency (h : Assembled g files links) (hnodup : files.Nodup)
    (hdistinct : (links ++ new).Nodup) (hends : ∀ l ∈ new, l.1 ∈ files ∧ l.2 ∈ files) :
    (∃ g', new.foldlM (fun g l => g.addDependency l.1 l.2) g = .ok g' ∧
        Assembled g' files (links ++ new)) ∨
      ∃ p q, new.foldlM (fun g l => g.addDependency l.1 l.2) g = .error (.cycle p q) ∧
        (p, q) ∈ new ∧ ReflTransGen (Linked (links ++ new)) q p := by
  induction new generalizing g links with
  | nil => exact .inl ⟨g, rfl, (List.append_nil links).symm ▸ h⟩
  | cons l new ih =>
    obtain ⟨p, q⟩ := l
    rw [List.forall_mem_cons] at hends
    rw [List.foldlM_cons]
    by_cases hcycle : ReflTransGen (Linked links) q p
    -- The links that follow are not looked at, but a circle along the first ones is one along all.
    · right
      refine ⟨p, q, ?_, List.mem_cons_self, ?_⟩
      · rw [h.addDependency_of_reach hnodup hends.1.1 hends.1.2 hcycle]
        rfl
      · exact ReflTransGen.mono (fun _ _ => List.mem_append_left _) _ _ hcycle
    · have hnew : (p, q) ∉ links := fun hmem =>
        (List.nodup_append.1 hdistinct).2.2 _ hmem _ List.mem_cons_self rfl
      obtain ⟨g', hg', h'⟩ := h.addDependency hnodup hends.1.1 hends.1.2 hnew hcycle
      have hassoc : links ++ [(p, q)] ++ new = links ++ (p, q) :: new := List.append_cons .. |>.symm
      rw [hg', ← hassoc]
      rcases ih h' (hassoc ▸ hdistinct) hends.2 with hok | ⟨a, b, herror, hmem, hreach⟩
      · exact .inl hok
      · exact .inr ⟨a, b, herror, List.mem_cons_of_mem _ hmem, hreach⟩

end Assembled

end ProjectGraph

/-! ## Loaded projects -/

namespace Discovery

open ProjectGraph

variable {loaded : List LoadedProject} {l : LoadedProject}

/-- The files of loaded projects. -/
def files (loaded : List LoadedProject) : List Path :=
  loaded.map fun l => l.project.file

/-- What loaded projects refer to, in the order in which it is entered. -/
def links (loaded : List LoadedProject) : List (Path × Path) :=
  loaded.flatMap fun l => l.references.map fun r => (l.project.file, r)

/-- Loaded projects are linked by what they refer to. -/
theorem linked_links_iff {p q : Path} :
    Linked (links loaded) p q ↔ ∃ l ∈ loaded, l.project.file = p ∧ q ∈ l.references := by
  unfold Linked links
  simp only [List.mem_flatMap, List.mem_map, Prod.mk.injEq]
  constructor
  · rintro ⟨l, hl, r, hr, rfl, rfl⟩
    exact ⟨l, hl, rfl, hr⟩
  · rintro ⟨l, hl, rfl, hq⟩
    exact ⟨l, hl, q, hq, rfl, rfl⟩

/-- The links of a file are the references of its project. -/
theorem filter_links (hnodup : (files loaded).Nodup) (hl : l ∈ loaded) :
    ((links loaded).filter (·.1 = l.project.file)).map Prod.snd = l.references := by
  induction loaded with
  | nil => cases hl
  | cons l' loaded ih =>
    obtain ⟨hnew, hnodup⟩ := List.nodup_cons.1 hnodup
    have hother {a b : LoadedProject} (hab : a.project.file ≠ b.project.file) :
        (a.references.map fun r => (a.project.file, r)).filter (·.1 = b.project.file) = [] := by
      simp [List.filter_map, Function.comp_def, hab]
    rw [links, List.flatMap_cons, ← links, List.filter_append, List.map_append]
    -- Files are different, so the links of a file all come from one project.
    rcases List.mem_cons.1 hl with rfl | hl
    · have hrest : (links loaded).filter (·.1 = l.project.file) = [] := by
        rw [links, List.filter_flatMap, List.flatMap_eq_nil_iff]
        exact fun b hb => hother fun heq => hnew (List.mem_map.2 ⟨b, hb, heq⟩)
      simp [hrest, List.filter_map, Function.comp_def]
    · have hne : l'.project.file ≠ l.project.file :=
        fun heq => hnew (List.mem_map.2 ⟨l, hl, heq.symm⟩)
      rw [hother hne, List.map_nil, List.nil_append, ih hnodup hl]

/-- No link is entered twice. -/
theorem nodup_links (hnodup : (files loaded).Nodup) (hrefs : ∀ l ∈ loaded, l.references.Nodup) :
    (links loaded).Nodup := by
  rw [links, List.nodup_flatMap]
  refine ⟨fun l hl => (hrefs l hl).map fun a b hab => (Prod.mk.inj hab).2, ?_⟩
  refine (List.pairwise_map.1 hnodup).imp fun {a b} hab => ?_
  refine List.disjoint_left.2 fun x ha hb => ?_
  obtain ⟨r, -, rfl⟩ := List.mem_map.1 ha
  obtain ⟨r', -, hr'⟩ := List.mem_map.1 hb
  exact hab (Prod.mk.inj hr').1.symm

/-- All projects are registered. -/
theorem assembled_foldlM_add {g : ProjectGraph} {known : List Path} (h : Assembled g known [])
    (hnodup : (known ++ files loaded).Nodup) (hnormal : ∀ p ∈ known ++ files loaded, p.IsNormal) :
    ∃ g', loaded.foldlM (fun g l => g.add l.project l.environment) g = .ok g' ∧
      Assembled g' (known ++ files loaded) [] := by
  -- On what is left to add: the next file is new, being different from all those before.
  induction loaded generalizing g known with
  | nil => exact ⟨g, rfl, (List.append_nil known).symm ▸ h⟩
  | cons l loaded ih =>
    have hassoc : known ++ [l.project.file] ++ files loaded = known ++ files (l :: loaded) :=
      List.append_cons .. |>.symm
    have hnew : g.index? l.project.file = none := by
      refine h.index?_eq_none (fun q hq => hnormal q (List.mem_append_left _ hq)) ?_ ?_
      · exact hnormal _ (List.mem_append_right _ List.mem_cons_self)
      · exact fun hmem => (List.nodup_append.1 hnodup).2.2 _ hmem _ List.mem_cons_self rfl
    have hadd : g.add l.project l.environment = .ok (g.register l.project l.environment) :=
      add_eq_ok_iff.2 ⟨hnew, rfl⟩
    rw [← hassoc] at hnodup hnormal
    rw [List.foldlM_cons, hadd, ← hassoc]
    exact ih (h.register hnew l.environment) hnodup hnormal

/-- Entering what each project refers to is entering all links. -/
theorem foldlM_links (g : ProjectGraph) :
    loaded.foldlM (fun g l =>
        l.references.foldlM (fun g r => ProjectGraph.addDependency g l.project.file r) g) g =
      (links loaded).foldlM (fun g l => g.addDependency l.1 l.2) g := by
  induction loaded generalizing g with
  | nil => rfl
  | cons l loaded ih =>
    rw [links, List.flatMap_cons, ← links, List.foldlM_append, List.foldlM_map, List.foldlM_cons]
    exact congrArg _ (funext ih)

/-- Projects that refer to each other make a graph, unless they refer to each other in a circle. -/
theorem graphOf_cases (hnodup : (files loaded).Nodup) (hnormal : ∀ p ∈ files loaded, p.IsNormal)
    (hrefs : ∀ l ∈ loaded, l.references.Nodup ∧ ∀ r ∈ l.references, r ∈ files loaded) :
    (∃ g, graphOf loaded = .ok g ∧ Assembled g (files loaded) (links loaded)) ∨
      ∃ p q, graphOf loaded = .error (.cycle p q) ∧ Linked (links loaded) p q ∧
        ReflTransGen (Linked (links loaded)) q p := by
  obtain ⟨g, hg, h⟩ := assembled_foldlM_add Assembled.empty hnodup hnormal
  have hgraph : graphOf loaded = (links loaded).foldlM (fun g l => g.addDependency l.1 l.2) g := by
    rw [graphOf, hg, ← foldlM_links]
    rfl
  rw [hgraph]
  refine h.foldlM_addDependency hnodup (nodup_links hnodup fun l hl => (hrefs l hl).1) ?_
  rintro ⟨p, q⟩ hpq
  -- Every link is between two files that were added.
  obtain ⟨l, hl, rfl, hq⟩ := linked_links_iff.1 hpq
  exact ⟨List.mem_map_of_mem hl, (hrefs l hl).2 q hq⟩

end Discovery

end BuildEngine
