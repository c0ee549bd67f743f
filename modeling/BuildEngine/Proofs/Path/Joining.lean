import BuildEngine.Proofs.Path.Normal
import Mathlib.Data.List.Basic

/-!
# Joined paths

What is below a directory has a text that begins with the text of the directory and a separator
(`folder`), and its components begin with those of the directory (`components_of_folder`). This
tells the components of a joined path, and its normal form where the second path climbs out of
nothing (`normalNames_append`, `text_ofNames_append`). No path gets characters by joining or
normalizing that were not there before, but for separators and dots (`forall_mem_join`,
`forall_mem_normalize`).
-/

namespace BuildEngine.Path

variable {p q base : Path} {cs ds : List Component} {rest : List Char} {c : Char}
  {P : Char → Prop}

/-- The text of a directory with a separator at its end. -/
def folder (p : Path) : List Char :=
  if p.text.toList.getLast? = some '/' then p.text.toList else p.text.toList ++ ['/']

/-! ## Texts of segments -/

/-- The segments with separators between them are the text. -/
theorem intercalate_segments (p : Path) : ['/'].intercalate p.segments = p.text.toList :=
  List.intercalate_splitOn '/'

/-- Behind the first piece each one has a separator in front. -/
theorem intercalate_cons (l : List Char) (ls : List (List Char)) :
    ['/'].intercalate (l :: ls) = l ++ ls.flatMap ('/' :: ·) := by
  induction ls generalizing l with
  | nil => simp
  | cons l' ls ih => rw [List.intercalate_cons_cons, ih, List.flatMap_cons]; simp

/-- There is one separator between pieces in front and pieces behind. -/
theorem intercalate_append {as bs : List (List Char)} (has : as ≠ []) (hbs : bs ≠ []) :
    ['/'].intercalate (as ++ bs) = ['/'].intercalate as ++ '/' :: ['/'].intercalate bs := by
  obtain ⟨a, as, rfl⟩ := List.exists_cons_of_ne_nil has
  obtain ⟨b, bs, rfl⟩ := List.exists_cons_of_ne_nil hbs
  simp [intercalate_cons]

/-- A text of segments that have separators in them has all their segments. -/
theorem splitOn_intercalate_eq_flatMap {ls : List (List Char)} (h : ls ≠ []) :
    (['/'].intercalate ls).splitOn '/' = ls.flatMap fun l => l.splitOn '/' := by
  obtain ⟨l, ls, rfl⟩ := List.exists_cons_of_ne_nil h
  induction ls generalizing l with
  | nil => simp
  | cons l' ls ih =>
    -- The separator behind the first part is cut at, so that its segments stand for themselves.
    rw [List.intercalate_cons_cons, List.append_assoc, List.singleton_append,
      List.splitOn_append_cons_self, ih l' (List.cons_ne_nil _ _)]
    rfl

/-! ## Components and segments -/

/-- A component is written as the segment it was read off. -/
theorem text_of_component? {first : Bool} {segment : List Char} {d : Component}
    (h : component? first segment = some d) : d.text.toList = segment := by
  unfold component? at h
  repeat' split at h
  all_goals cases h
  · next hhere _ => exact hhere.symm
  · next hup => exact hup.symm
  · exact String.toList_ofList

/-- Only the empty segment and `.` stand for nothing. -/
theorem eq_of_component?_eq_none {segment : List Char} (h : component? false segment = none) :
    segment = [] ∨ segment = ['.'] := by
  have hvoid := component?_eq_none_iff.1 h
  simpa only [isVoid, Bool.or_eq_true, decide_eq_true_eq] using hvoid

/-- Segments that do not climb stand for names. -/
theorem exists_names_of_not_mem_up {segments : List (List Char)}
    (h : .up ∉ segments.filterMap (component? false)) :
    ∃ names : List String, segments.filterMap (component? false) = names.map .name := by
  -- On the segments: a component that is not `..` is a name here, as `.` and the root stand first
  -- only.
  induction segments with
  | nil => exact ⟨[], rfl⟩
  | cons segment segments ih =>
    cases hc : component? false segment with
    | none =>
      rw [List.filterMap_cons_none hc] at h ⊢
      exact ih h
    | some d =>
      rw [List.filterMap_cons_some hc] at h ⊢
      rw [List.mem_cons, not_or] at h
      obtain ⟨names, hnames⟩ := ih h.2
      rw [hnames]
      cases d with
      | name s => exact ⟨s :: names, rfl⟩
      | up => exact absurd rfl h.1
      | root => exact absurd hc (component?_ne_root false segment)
      | here =>
        obtain rfl : ['.'] = segment := text_of_component? hc
        cases hc

/-! ## Absolute normal paths -/

/-- The normal form of an absolute path starts at the root. -/
theorem normalize_of_isAbsolute (h : p.isAbsolute = true) :
    p.normalize = ofNames true (normalNames true p.components) := by
  rw [normalize, h]

/-- The normal form of an absolute path consists of names. -/
theorem isStep_of_isAbsolute (h : p.isAbsolute = true) :
    ∀ c ∈ normalNames true p.components, IsStep c := by
  rw [← h]
  exact fun _ => isStep_of_mem_normalNames

/-- Names behind the root are normal. -/
theorem normalNames_names (rooted : Bool) (names : List String) :
    normalNames rooted (.root :: names.map Component.name) = names.map Component.name := by
  rw [normalNames, List.foldl_cons, pushNormal, foldl_pushNormal_names, List.append_nil,
    List.reverse_reverse]

/-! ## Components below a directory -/

/-- What is joined to a path without a text stands for itself. -/
theorem join_of_text_eq_empty (hbase : base.text = "") (p : Path) : base.join p = p := by
  unfold join
  split
  · rfl
  · rw [if_pos (.inl hbase), hbase, String.empty_append]

/-- A relative path is joined behind a separator. -/
theorem text_join_of_text_ne_empty (hbase : base.text ≠ "") (hp : p.isAbsolute = false) :
    (base.join p).text.toList = base.folder ++ p.text.toList := by
  rw [join, if_neg (by simp [hp]), folder]
  by_cases hlast : base.text.toList.getLast? = some '/'
  · rw [if_pos (.inr hlast), if_pos hlast, String.toList_append]
  · rw [if_neg (by simp [hbase, hlast]), if_neg hlast]
    simp

/-- Joined to an absolute path, a relative one stands behind a separator. -/
theorem text_join (hbase : base.isAbsolute = true) (hp : p.isAbsolute = false) :
    (base.join p).text.toList = base.folder ++ p.text.toList := by
  refine text_join_of_text_ne_empty ?_ hp
  intro h
  rw [isAbsolute, h] at hbase
  cases hbase

/-- The separator at the end of a directory cuts no component. -/
theorem exists_folder (p : Path) :
    ∃ front, p.folder = front ++ ['/'] ∧
      (front.splitOn '/').filterMap (component? false) =
        p.segments.filterMap (component? false) := by
  unfold folder
  split
  · next hlast =>
    -- Behind a separator at the end stands an empty segment.
    obtain ⟨front, hfront⟩ := List.getLast?_eq_some_iff.1 hlast
    refine ⟨front, hfront, ?_⟩
    rw [segments, hfront, List.splitOn_append_cons_self, List.splitOn_nil, List.filterMap_append]
    exact (List.append_nil _).symm
  · exact ⟨p.text.toList, rfl, rfl⟩

/-- A text that begins with an absolute directory is absolute. -/
theorem isAbsolute_of_folder (hq : q.isAbsolute = true) (h : p.text.toList = q.folder ++ rest) :
    p.isAbsolute = true := by
  obtain ⟨cs, hcs⟩ := isAbsolute_eq_true_iff.1 hq
  unfold folder at h
  rw [isAbsolute_eq_true_iff, h, hcs]
  split <;> exact ⟨_, rfl⟩

/-- The components of a path below a directory begin with those of the directory. -/
theorem components_of_folder (hq : q.isAbsolute = true) (h : p.text.toList = q.folder ++ rest) :
    p.components = q.components ++ (rest.splitOn '/').filterMap (component? false) := by
  obtain ⟨front, hfolder, hfront⟩ := exists_folder q
  rw [components_of_isAbsolute (isAbsolute_of_folder hq h), components_of_isAbsolute hq, segments,
    h, hfolder, List.append_assoc, List.singleton_append, List.splitOn_append_cons_self,
    List.filterMap_append, hfront, List.cons_append]

/-- The first segments of an absolute path are those of a directory that it is below. -/
theorem exists_folder_of_segments {front back : List (List Char)} (h : p.isAbsolute = true)
    (hsegments : p.segments = front ++ back) (hfront : front ≠ []) (hback : back ≠ []) :
    ∃ d : Path, d.folder = ['/'].intercalate front ++ ['/'] ∧
      p.text.toList = d.folder ++ ['/'].intercalate back ∧ d.isAbsolute = true ∧
      d.components = .root :: front.filterMap (component? false) := by
  have hslash : ∀ segment ∈ front, '/' ∉ segment := fun segment hsegment =>
    have hmem : segment ∈ p.segments := hsegments ▸ List.mem_append_left back hsegment
    Text.not_mem_of_mem_splitOn hmem
  -- The text is cut in front of the separator between the two parts.
  have htext : p.text.toList = ['/'].intercalate front ++ ['/'] ++ ['/'].intercalate back := by
    rw [← intercalate_segments, hsegments, intercalate_append hfront hback]
    simp
  have hfolder : (Path.mk (String.ofList (['/'].intercalate front ++ ['/']))).folder =
      ['/'].intercalate front ++ ['/'] := by
    rw [folder, String.toList_ofList, if_pos List.getLast?_concat]
  have habsolute :
      (Path.mk (String.ofList (['/'].intercalate front ++ ['/']))).isAbsolute = true := by
    rw [isAbsolute, htext, List.head?_append_of_ne_nil _ (by simp)] at h
    rwa [isAbsolute, String.toList_ofList]
  refine ⟨_, hfolder, by rw [hfolder, htext], habsolute, ?_⟩
  rw [components_of_isAbsolute habsolute, segments, String.toList_ofList,
    List.splitOn_append_cons_self, List.splitOn_intercalate '/' hslash hfront, List.splitOn_nil,
    List.filterMap_append]
  exact congrArg _ (List.append_nil _)

/-- A normal path below a directory has more components than the directory. -/
theorem ne_nil_of_folder (hp : p.IsNormal) (habsolute : p.isAbsolute = true) (hroot : p.text ≠ "/")
    (h : p.text.toList = q.folder ++ rest) :
    (rest.splitOn '/').filterMap (component? false) ≠ [] := by
  obtain ⟨cs, hcs, rfl⟩ : ∃ cs, (∀ c ∈ cs, IsStep c) ∧ p = ofNames true cs :=
    ⟨_, isStep_of_isAbsolute habsolute, hp.symm.trans (normalize_of_isAbsolute habsolute)⟩
  have hne : cs ≠ [] := by
    rintro rfl
    exact hroot rfl
  have hsegments : (ofNames true cs).segments = _ := segments_ofNames hcs hne
  obtain ⟨front, hfolder, -⟩ := exists_folder q
  rw [segments, h, hfolder, List.append_assoc, List.singleton_append,
    List.splitOn_append_cons_self, if_pos rfl, List.singleton_append] at hsegments
  -- The first segment stands in front of the root; each one behind it is a component.
  obtain ⟨segment, hsegment⟩ := List.exists_mem_of_ne_nil _ (List.splitOn_ne_nil '/' rest)
  have hmem : segment ∈ cs.map fun c => c.text.toList := by
    rcases List.append_eq_cons_iff.1 hsegments with ⟨hnil, -⟩ | ⟨more, -, hmore⟩
    · exact absurd hnil (List.splitOn_ne_nil '/' front)
    · exact hmore ▸ List.mem_append_right more hsegment
  obtain ⟨c, hc, rfl⟩ := List.mem_map.1 hmem
  exact List.ne_nil_of_mem
    (List.mem_filterMap.2 ⟨_, hsegment, component?_of_isStep (hcs c hc) false⟩)

/-- A relative path adds its components to those of the base. -/
theorem components_join (hbase : base.isAbsolute = true) (hp : p.isAbsolute = false) :
    (base.join p).components = base.components ++ p.segments.filterMap (component? false) :=
  components_of_folder hbase (text_join hbase hp)

/-! ## Normal components in two steps -/

/-- Where `..` is once left over, it is never taken away. -/
theorem mem_up_pushNormal {taken : List Component} (h : .up ∈ taken) (d : Component) :
    .up ∈ pushNormal false taken d := by
  cases d with
  | root | here => exact h
  | name s => exact List.mem_cons_of_mem _ h
  | up =>
    unfold pushNormal
    dsimp only
    split
    · exact (List.mem_cons.1 h).resolve_left nofun
    · exact List.mem_cons_self

/-- Components that leave no `..` over are taken onto others as they are taken for themselves. -/
theorem foldl_pushNormal_of_not_mem_up (hup : .up ∉ ds.foldl (pushNormal false) [])
    (taken : List Component) :
    ds.foldl (pushNormal true) taken = ds.foldl (pushNormal false) [] ++ taken := by
  -- From the last component: a `..` that is left over early would be left over at the end.
  induction ds using List.reverseRecOn with
  | nil => rfl
  | append_singleton ds d ih =>
    rw [List.foldl_append, List.foldl_cons, List.foldl_nil] at hup ⊢
    have ih := ih fun h => hup (mem_up_pushNormal h d)
    rw [List.foldl_append, List.foldl_cons, List.foldl_nil, ih]
    generalize ds.foldl (pushNormal false) [] = inner at hup
    cases d with
    | root | here | name => rfl
    | up =>
      cases inner with
      | nil => exact absurd List.mem_cons_self hup
      | cons d inner =>
        cases d with
        | name => rfl
        | root | here | up => exact absurd List.mem_cons_self hup

/-- Normal components behind others, where no `..` is left over. -/
theorem normalNames_append (hup : .up ∉ normalNames false ds) :
    normalNames true (cs ++ ds) = normalNames true cs ++ normalNames false ds := by
  rw [normalNames, List.mem_reverse] at hup
  rw [normalNames, List.foldl_append, foldl_pushNormal_of_not_mem_up hup, List.reverse_append]
  rfl

/-! ## Texts of normal paths -/

/-- The text of components has separators between them, and one in front for the root. -/
theorem text_ofNames (rooted : Bool) (cs : List Component) :
    (ofNames rooted cs).text.toList =
      (if rooted then ['/'] else []) ++ ['/'].intercalate (cs.map fun c => c.text.toList) := by
  cases rooted <;> simp [ofNames, String.toList_intercalate, Function.comp_def]

/-- A path of components ends in no separator. -/
theorem getLast?_text_ofNames (hcs : ∀ c ∈ cs, IsStep c) (hne : cs ≠ []) (rooted : Bool) :
    (ofNames rooted cs).text.toList.getLast? ≠ some '/' := by
  obtain ⟨front, last, rfl⟩ := (List.eq_nil_or_concat cs).resolve_left hne
  rw [List.concat_eq_append] at hcs ⊢
  obtain ⟨hlast, hslash⟩ := text_of_isStep (hcs last (List.mem_append_right _ List.mem_cons_self))
  -- The text ends in that of the last component, which has no separator in it.
  obtain ⟨before, hbefore⟩ : ∃ before, (ofNames rooted (front ++ [last])).text.toList =
      before ++ last.text.toList := by
    rw [text_ofNames, List.map_append]
    by_cases hfront : front = []
    · subst hfront
      rw [List.map_nil, List.nil_append, List.map_singleton, List.intercalate_singleton]
      exact ⟨_, rfl⟩
    · rw [intercalate_append (by simpa using hfront) (by simp), List.map_singleton,
        List.intercalate_singleton, List.append_cons, ← List.append_assoc]
      exact ⟨_, rfl⟩
  rw [hbefore, List.getLast?_append, List.getLast?_eq_some_getLast hlast, Option.some_or]
  exact fun h => hslash (Option.some.inj h ▸ List.getLast_mem hlast)

/-- The text of components begins with the directory of those in front. -/
theorem text_ofNames_append (hcs : ∀ c ∈ cs, IsStep c) (hds : ds ≠ []) :
    (ofNames true (cs ++ ds)).text.toList =
      (ofNames true cs).folder ++ ['/'].intercalate (ds.map fun c => c.text.toList) := by
  unfold folder
  by_cases hne : cs = []
  · subst hne
    rw [List.nil_append, text_ofNames]
    rfl
  · rw [if_neg (getLast?_text_ofNames hcs hne true), text_ofNames, text_ofNames, List.map_append,
      intercalate_append (by simpa using hne) (by simpa using hds)]
    simp

/-! ## Characters of normal paths -/

/-- A character of joined pieces is a separator or one of a piece. -/
theorem mem_intercalate {ls : List (List Char)} (h : c ∈ ['/'].intercalate ls) :
    c = '/' ∨ ∃ l ∈ ls, c ∈ l := by
  cases ls with
  | nil => cases h
  | cons l ls =>
    rw [intercalate_cons, List.mem_append, List.mem_flatMap] at h
    rcases h with h | ⟨l', hl', h⟩
    · exact .inr ⟨l, List.mem_cons_self, h⟩
    · rcases List.mem_cons.1 h with rfl | h
      · exact .inl rfl
      · exact .inr ⟨l', List.mem_cons_of_mem l hl', h⟩

/-- The characters of pieces are characters of the joined pieces. -/
theorem mem_intercalate_of_mem {ls : List (List Char)} {l : List Char} (hl : l ∈ ls) (hc : c ∈ l) :
    c ∈ ['/'].intercalate ls := by
  cases ls with
  | nil => cases hl
  | cons l' ls =>
    rw [intercalate_cons, List.mem_append, List.mem_flatMap]
    rcases List.mem_cons.1 hl with rfl | hl
    · exact .inl hc
    · exact .inr ⟨l, hl, List.mem_cons_of_mem _ hc⟩

/-- The characters of a segment are characters of the text. -/
theorem mem_of_mem_segments {segment : List Char} (hsegment : segment ∈ p.segments)
    (hc : c ∈ segment) : c ∈ p.text.toList := by
  rw [← intercalate_segments]
  exact mem_intercalate_of_mem hsegment hc

/-- The characters of a name are characters of the text. -/
theorem mem_of_mem_components {s : String} (h : .name s ∈ p.components) (hc : c ∈ s.toList) :
    c ∈ p.text.toList := by
  rcases exists_segment h with ⟨hroot, -⟩ | ⟨first, segment, hsegment, hname⟩
  · cases hroot
  · have htext : s.toList = segment := text_of_component? hname
    exact mem_of_mem_segments hsegment (htext ▸ hc)

/-- What a normal form holds is `..` or one of the names. -/
theorem mem_normalNames {rooted : Bool} {d : Component} (h : d ∈ normalNames rooted cs) :
    d = .up ∨ ∃ s, d = .name s ∧ .name s ∈ cs := by
  obtain ⟨n, names, heq, -, hnames⟩ := foldl_pushNormal rooted cs
  rw [normalNames, heq, List.mem_reverse, List.mem_append, List.mem_map] at h
  rcases h with ⟨s, hs, rfl⟩ | h
  · exact .inr ⟨s, rfl, hnames s hs⟩
  · exact .inl (List.eq_of_mem_replicate h)

/-- A normal form has no characters that the path does not have, but for separators and dots. -/
theorem forall_mem_normalize (hslash : P '/') (hdot : P '.') (h : ∀ c ∈ p.text.toList, P c) :
    ∀ c ∈ p.normalize.text.toList, P c := by
  intro c hc
  rw [normalize, text_ofNames, List.mem_append] at hc
  -- A root in front, or the components with separators between them.
  rcases hc with hc | hc
  · split at hc
    · rwa [List.mem_singleton.1 hc]
    · cases hc
  · rcases mem_intercalate hc with rfl | ⟨l, hl, hc⟩
    · exact hslash
    · -- A component of a normal form is `..` or a name that was there before.
      obtain ⟨d, hd, rfl⟩ := List.mem_map.1 hl
      rcases mem_normalNames hd with rfl | ⟨s, rfl, hs⟩
      · have hup : c ∈ ['.', '.'] := hc
        have hc : c = '.' := by simpa using hup
        rwa [hc]
      · exact h c (mem_of_mem_components hs hc)

/-- The characters of a directory are a separator and those of its text. -/
theorem mem_folder (h : c ∈ p.folder) : c = '/' ∨ c ∈ p.text.toList := by
  unfold folder at h
  split at h
  · exact .inr h
  · exact (List.mem_append.1 h).symm.imp_left List.mem_singleton.1

/-- A joined path has the characters of its parts. -/
theorem forall_mem_join (hslash : P '/')
    (hbase : p.isAbsolute = false → ∀ c ∈ base.text.toList, P c)
    (hp : ∀ c ∈ p.text.toList, P c) : ∀ c ∈ (base.join p).text.toList, P c := by
  intro c hc
  unfold join at hc
  -- An absolute path replaces the base; otherwise a separator may be put between them.
  split at hc
  · exact hp c hc
  · next hrelative =>
    have hbase := hbase (Bool.eq_false_iff.2 hrelative)
    split at hc <;> simp only [String.toList_append, List.mem_append] at hc
    · exact hc.elim (hbase c) (hp c)
    · rcases hc with (hc | hc) | hc
      · exact hbase c hc
      · rwa [List.mem_singleton.1 hc]
      · exact hp c hc

end BuildEngine.Path
