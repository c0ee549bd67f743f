import BuildEngine.Proofs.Path.Lexical

/-!
# Above and below a directory

An absolute normal path is the path of the names behind its root (`IsNormal.exists_ofNames`). Said
this way, the path above it leaves the last name out (`parent?_ofNames`), the rest of it behind a
directory is the path of the names that follow (`stripPrefix?_ofNames`), and joining that rest to
the directory leads back (`absolutize_ofNames`).
-/

namespace BuildEngine.Path

variable {p q : Path} {cs ds : List Component} {c : Component} {names more : List String}
  {s : String} {rooted : Bool}

/-! ## Segments of components -/

/-- The segments that components are written as. -/
def texts (cs : List Component) : List (List Char) :=
  cs.map fun c => c.text.toList

/-- A step is not void. -/
theorem isVoid_of_isStep (h : IsStep c) : isVoid c.text.toList = false := by
  refine Bool.eq_false_iff.2 fun hvoid => ?_
  have hnone := component?_eq_none_iff.2 hvoid
  rw [component?_of_isStep h] at hnone
  cases hnone

/-- In front of steps nothing is void. -/
theorem dropWhile_isVoid (hcs : ∀ c ∈ cs, IsStep c) : (texts cs).dropWhile isVoid = texts cs := by
  cases cs with
  | nil => rfl
  | cons c cs =>
    refine List.dropWhile_cons_of_neg ?_
    rw [isVoid_of_isStep (hcs c List.mem_cons_self)]
    exact Bool.false_ne_true

/-- Behind steps nothing is void. -/
theorem dropVoidEnd_texts (hcs : ∀ c ∈ cs, IsStep c) : dropVoidEnd (texts cs) = texts cs := by
  have hreverse : (texts cs).reverse = texts cs.reverse := List.map_reverse.symm
  rw [dropVoidEnd, hreverse, dropWhile_isVoid fun c hc => hcs c (List.mem_reverse.1 hc), ← hreverse,
    List.reverse_reverse]

/-- Leaving out components of written steps is leaving out steps. -/
theorem dropComponents_texts (hcs : ∀ c ∈ cs, IsStep c) (n : Nat) :
    dropComponents n (texts cs) = texts (cs.drop n) := by
  -- On the number of components to drop; none of those left is void.
  induction n generalizing cs with
  | zero =>
    rw [dropComponents, List.drop_zero]
    exact dropWhile_isVoid hcs
  | succ n ih =>
    cases cs with
    | nil => rfl
    | cons c cs =>
      rw [List.forall_mem_cons] at hcs
      have hvoid : isVoid c.text.toList = false := isVoid_of_isStep hcs.1
      rw [texts, List.map_cons, dropComponents, hvoid]
      exact ih hcs.2

/-- Paths with the same characters are equal. -/
theorem eq_of_toList (h : p.text.toList = q.text.toList) : p = q :=
  congrArg mk (String.toList_inj.1 h)

/-- The text of segments has separators between them. -/
theorem text_ofSegments (segments : List (List Char)) :
    (ofSegments segments).text.toList = ['/'].intercalate segments :=
  String.toList_ofList

/-- Written steps without a head are a relative path. -/
theorem ofSegments_texts (cs : List Component) : ofSegments (texts cs) = ofNames false cs :=
  eq_of_toList ((text_ofSegments _).trans (text_ofNames false cs).symm)

/-- The head and the segments of an absolute path of components. -/
theorem exists_splitHead_ofNames (hcs : ∀ c ∈ cs, IsStep c) :
    ∃ segments, (ofNames true cs).splitHead = (some [], segments) ∧
      dropVoidEnd segments = texts cs ∧
        ∀ n, dropVoidEnd (dropComponents n segments) = texts (cs.drop n) := by
  -- The root is split off, and what follows it are the texts of the steps.
  by_cases hne : cs = []
  · -- Behind the root alone stands one empty segment, which counts for nothing.
    subst hne
    refine ⟨[[]], rfl, rfl, fun n => ?_⟩
    cases n <;> rfl
  · refine ⟨texts cs, ?_, dropVoidEnd_texts hcs, fun n => ?_⟩
    · rw [splitHead, segments_ofNames hcs hne]
      exact if_pos (isAbsolute_ofNames hcs)
    · rw [dropComponents_texts hcs]
      exact dropVoidEnd_texts fun c hc => hcs c (List.mem_of_mem_drop hc)

/-! ## The path above -/

/-- Written steps behind an empty head are an absolute path. -/
theorem ofHead_texts (hcs : ∀ c ∈ cs, IsStep c) :
    ofHead (some []) (texts cs) = ofNames true cs := by
  unfold ofHead
  rw [dropVoidEnd_texts hcs]
  cases cs with
  | nil => rfl
  | cons c cs =>
    refine eq_of_toList ((text_ofSegments _).trans ?_)
    rw [text_ofNames]
    rfl

/-- The path above leaves out the last component. -/
theorem parent?_ofNames (hcs : ∀ d ∈ cs ++ [c], IsStep d) :
    (ofNames true (cs ++ [c])).parent? = some (ofNames true cs) := by
  obtain ⟨segments, hhead, hsegments, -⟩ := exists_splitHead_ofNames hcs
  have hcs' : ∀ d ∈ cs, IsStep d := fun d hd => hcs d (List.mem_append_left _ hd)
  have hlast : texts (cs ++ [c]) = texts cs ++ [c.text.toList] := List.map_append
  have hne : texts (cs ++ [c]) ≠ [] := hlast ▸ List.concat_ne_nil _ _
  unfold parent?
  rw [hhead]
  dsimp only
  rw [hsegments]
  split
  · next hnil => exact absurd hnil hne
  · rw [hlast, List.dropLast_concat, ofHead_texts hcs']

/-! ## The rest behind a directory -/

/-- One path begins another if its steps do. -/
theorem startsWith_ofNames_iff (hcs : ∀ c ∈ cs, IsStep c) (hds : ∀ c ∈ ds, IsStep c) :
    (ofNames true cs).startsWith (ofNames true ds) = true ↔ ds <+: cs := by
  rw [startsWith, components_ofNames hcs, components_ofNames hds, List.isPrefixOf_iff_prefix]
  exact List.prefix_cons_inj _

/-- The rest behind a directory is the path of the components that follow. -/
theorem stripPrefix?_ofNames (h : ∀ c ∈ cs ++ ds, IsStep c) :
    (ofNames true (cs ++ ds)).stripPrefix? (ofNames true cs) = some (ofNames false ds) := by
  have hcs : ∀ c ∈ cs, IsStep c := fun c hc => h c (List.mem_append_left _ hc)
  obtain ⟨segments, hhead, -, hsegments⟩ := exists_splitHead_ofNames h
  have hlength : (ofNames true cs).components.length = cs.length + 1 := by
    rw [components_ofNames hcs]
    rfl
  rw [stripPrefix?, if_pos ((startsWith_ofNames_iff h hcs).2 (List.prefix_append cs ds)), hhead,
    hlength]
  dsimp only
  rw [hsegments, List.drop_left, ofSegments_texts]

/-! ## Names behind the root -/

/-- Names are steps. -/
theorem isStep_of_mem_names (h : ∀ s ∈ names, IsName s) : ∀ c ∈ names.map .name, IsStep c := by
  intro c hc
  obtain ⟨s, hs, rfl⟩ := List.mem_map.1 hc
  exact .inr ⟨s, rfl, h s hs⟩

/-- An absolute normal path is that of the names behind its root. -/
theorem IsNormal.exists_ofNames (hp : p.IsNormal) (h : p.isAbsolute = true) :
    ∃ names : List String, (∀ s ∈ names, IsName s) ∧ p = ofNames true (names.map .name) := by
  obtain ⟨n, names, hnames, hroot, hname⟩ := exists_normalNames p
  obtain rfl := hroot h
  refine ⟨names, hname, ?_⟩
  rw [h] at hnames
  exact hp.symm.trans ((normalize_of_isAbsolute h).trans (congrArg (ofNames true) hnames))

/-- A path is below a directory if its names begin with those of the directory. -/
theorem startsWith_names_iff (hnames : ∀ s ∈ names, IsName s) (hmore : ∀ s ∈ more, IsName s) :
    (ofNames true (names.map .name)).startsWith (ofNames true (more.map .name)) = true ↔
      more <+: names := by
  rw [startsWith_ofNames_iff (isStep_of_mem_names hnames) (isStep_of_mem_names hmore)]
  exact List.prefix_map_iff_of_injective fun _ _ => Component.name.inj

/-- A path of steps takes them. -/
theorem steps_ofNames (hcs : ∀ c ∈ cs, IsStep c) : (ofNames rooted cs).steps = cs := by
  by_cases hne : cs = []
  · subst hne
    cases rooted <;> rfl
  · rw [steps, segments_ofNames hcs hne, List.filterMap_append, filterMap_component? hcs]
    cases rooted <;> rfl

/-- The file of a path has the name that the path ends in. -/
theorem fileName?_of_steps (h : p.steps = cs ++ [.name s]) : p.fileName? = some s := by
  obtain ⟨head, heq, -⟩ := exists_components_eq p
  rw [fileName?, heq, h, ← List.append_assoc, List.getLast?_concat]

/-- Names are normal. -/
theorem normalNames_map_name (rooted : Bool) (names : List String) :
    normalNames rooted (names.map .name) = names.map .name := by
  rw [normalNames, foldl_pushNormal_names, List.append_nil, List.reverse_reverse]

/-- Names seen from a directory stand behind those of the directory. -/
theorem absolutize_ofNames (hnames : ∀ s ∈ names ++ more, IsName s) :
    (ofNames true (names.map .name)).absolutize (ofNames false (more.map .name)) =
      ofNames true ((names ++ more).map .name) := by
  have hbase := isStep_of_mem_names fun s hs => hnames s (List.mem_append_left more hs)
  have hmore := isStep_of_mem_names fun s hs => hnames s (List.mem_append_right names hs)
  have habsolute : (ofNames true (names.map .name)).isAbsolute = true := isAbsolute_ofNames hbase
  have hrelative : (ofNames false (more.map .name)).isAbsolute = false := isAbsolute_ofNames hmore
  rw [absolutize, normalize_eq, isAbsolute_join habsolute, steps_join hrelative,
    steps_ofNames hbase, steps_ofNames hmore, ← List.map_append, normalNames_map_name]

/-- A name at the end is pushed last, and nothing takes it away. -/
theorem normalNames_concat_name (rooted : Bool) (cs : List Component) (s : String) :
    normalNames rooted (cs ++ [.name s]) = normalNames rooted cs ++ [.name s] := by
  rw [normalNames, List.foldl_append, List.foldl_cons, List.foldl_nil, pushNormal,
    List.reverse_cons]
  rfl

/-- A path that ends in a name ends in it from wherever it is seen. -/
theorem exists_absolutize_eq {base : Path} (hbase : base.isAbsolute = true)
    (h : p.steps = cs ++ [.name s]) :
    ∃ names : List String, (∀ t ∈ names ++ [s], IsName t) ∧
      base.absolutize p = ofNames true ((names ++ [s]).map .name) := by
  -- Also an absolute path, which leaves the base out, has the name as its last step.
  obtain ⟨front, hfront⟩ : ∃ front, (base.join p).steps = front ++ [.name s] := by
    cases hp : p.isAbsolute with
    | true => exact ⟨cs, by rw [join, if_pos hp, h]⟩
    | false => exact ⟨base.steps ++ cs, by rw [steps_join hp, h, List.append_assoc]⟩
  obtain ⟨names, hnames, hnormal⟩ :=
    (isNormal_absolutize base p).exists_ofNames (isAbsolute_absolutize hbase p)
  have hsteps : names.map .name = normalNames true front ++ [.name s] := by
    have hcomponents := components_normalize (base.join p)
    rw [← absolutize, hnormal, components_ofNames (isStep_of_mem_names hnames),
      isAbsolute_join hbase, normalNames_components, hfront, normalNames_concat_name] at hcomponents
    exact (List.cons.inj hcomponents).2
  -- So the last of the names behind the root is that name.
  obtain ⟨names, last, rfl, -, hlast⟩ := List.map_eq_append_iff.1 hsteps
  obtain ⟨t, rfl, ht⟩ := List.map_eq_singleton_iff.1 hlast
  obtain rfl := Component.name.inj ht
  exact ⟨names, hnames, hnormal⟩

/-! ## Folders behind a directory -/

/-- The text of a relative path with a separator at its end, unless it leads nowhere. -/
def asFolder (p : Path) : String :=
  if p.text = "" then "" else p.text ++ "/"

/-- A folder is nothing, or ends in a separator. -/
theorem asFolder_eq_empty_or (p : Path) :
    p.asFolder = "" ∨ p.asFolder.toList.getLast? = some '/' := by
  unfold asFolder
  split
  · exact .inl rfl
  · rw [String.toList_append]
    exact .inr List.getLast?_concat

/-- A path with steps is not empty. -/
theorem text_ofNames_ne_empty (hcs : ∀ c ∈ cs, IsStep c) (hne : cs ≠ []) (rooted : Bool) :
    (ofNames rooted cs).text ≠ "" := by
  obtain ⟨c, cs, rfl⟩ := List.exists_cons_of_ne_nil hne
  intro h
  have htext := text_ofNames rooted (c :: cs)
  rw [h, List.map_cons, intercalate_cons] at htext
  have hempty : c.text.toList = [] := by simp_all
  exact (text_of_isStep (hcs c List.mem_cons_self)).1 hempty

/-- A relative path stays relative with a separator at its end. -/
theorem isAbsolute_asFolder (h : p.isAbsolute = false) :
    (Path.mk p.asFolder).isAbsolute = false := by
  unfold asFolder
  split
  · rfl
  · next hne =>
    have hchars : p.text.toList ≠ [] := mt String.toList_eq_nil_iff.1 hne
    rw [isAbsolute, String.toList_append, List.head?_append_of_ne_nil _ hchars]
    exact h

/-- What is joined to a text that ends in a separator is put behind it. -/
theorem folder_of_text_eq (h : p.text.toList = q.folder) : p.folder = q.folder := by
  obtain ⟨front, hfront, -⟩ := exists_folder q
  rw [folder, h, hfront, if_pos List.getLast?_concat]

/-- Folders lead from a directory to one below it. -/
theorem folder_join_asFolder (hcs : ∀ c ∈ cs ++ ds, IsStep c) :
    ((ofNames true cs).join ⟨(ofNames false ds).asFolder⟩).folder =
      (ofNames true (cs ++ ds)).folder := by
  have hfront : ∀ c ∈ cs, IsStep c := fun c hc => hcs c (List.mem_append_left ds hc)
  have hback : ∀ c ∈ ds, IsStep c := fun c hc => hcs c (List.mem_append_right cs hc)
  refine folder_of_text_eq ?_
  rw [text_join (isAbsolute_ofNames hfront) (isAbsolute_asFolder (isAbsolute_ofNames hback))]
  -- Without a folder to put behind, the base stays as it is.
  by_cases hne : ds = []
  · subst hne
    rw [List.append_nil]
    exact List.append_nil _
  · have hne' : cs ++ ds ≠ [] := List.append_ne_nil_of_right_ne_nil cs hne
    have hfolder : (ofNames true (cs ++ ds)).folder =
        (ofNames true (cs ++ ds)).text.toList ++ ['/'] :=
      if_neg (getLast?_text_ofNames hcs hne' true)
    rw [hfolder, text_ofNames_append hfront hne, asFolder,
      if_neg (text_ofNames_ne_empty hback hne false), String.toList_append, text_ofNames false ds,
      if_neg Bool.false_ne_true, List.nil_append, List.append_assoc]
    rfl

/-- Folders and a name lead from a directory to what stands behind them. -/
theorem join_asFolder_join (hcs : ∀ c ∈ cs ++ ds ++ [.name s], IsStep c) :
    ((ofNames true cs).join ⟨(ofNames false ds).asFolder⟩).join ⟨s⟩ =
      ofNames true (cs ++ ds ++ [.name s]) := by
  have hfolders : ∀ c ∈ cs ++ ds, IsStep c := fun c hc => hcs c (List.mem_append_left _ hc)
  have hfront : ∀ c ∈ cs, IsStep c := fun c hc => hfolders c (List.mem_append_left ds hc)
  have hname : IsStep (.name s) := hcs _ (List.mem_append_right _ List.mem_cons_self)
  -- A single name never stands for a path from the root.
  have hrelative : (Path.mk s).isAbsolute = false := by
    refine Bool.eq_false_iff.2 fun hroot => ?_
    obtain ⟨rest, hrest⟩ := isAbsolute_eq_true_iff.1 hroot
    exact (text_of_isStep hname).2 (hrest ▸ List.mem_cons_self : '/' ∈ s.toList)
  refine eq_of_toList ?_
  rw [text_join (isAbsolute_join (isAbsolute_ofNames hfront) _) hrelative,
    folder_join_asFolder hfolders, text_ofNames_append hfolders (List.cons_ne_nil _ _)]
  exact congrArg _ (List.intercalate_singleton ..).symm

end BuildEngine.Path
