import BuildEngine.Glob.Expand
import BuildEngine.Proofs.Path.Joining

/-!
# The fixed front of a pattern

A pattern is expanded by listing the files below one place (`listingRoot`), told from the segments
of the pattern in front of the first wildcard. Matching goes by the normal form of the pattern. The
two agree where the normal form begins with that place (`Anchored`), and it does unless the pattern
climbs out of its fixed front (`Descends.anchored`).
-/

namespace BuildEngine.Glob

open BuildEngine.Path (component? normalNames ofNames)

variable {base p : Path} {pattern : String} {cs : List Char} {c : Char}

/-- The place that the files of a pattern are listed below. -/
def listingRoot (base : Path) (pattern : String) : Path :=
  base.absolutize ⟨fixedFront pattern⟩

/-- The segments of a pattern from the first one with a wildcard on. -/
def wildSegments (pattern : String) : List (List Char) :=
  ((unifySeparators pattern.toList).splitOn '/').dropWhile fun s => !hasWildcard s

/-- What the segments of a pattern from the first one with a wildcard on lead to. -/
def wildNames (pattern : String) : List Component :=
  normalNames false ((wildSegments pattern).filterMap (component? false))

/-- A character that stands for itself in every pattern. -/
def IsPlain (c : Char) : Prop :=
  c ≠ '\\' ∧ c ≠ '*' ∧ c ≠ '?'

instance (c : Char) : Decidable (IsPlain c) :=
  inferInstanceAs (Decidable (c ≠ '\\' ∧ c ≠ '*' ∧ c ≠ '?'))

/-- A pattern that leads to files below its fixed front only. -/
structure Descends (base : Path) (pattern : String) : Prop where
  /-- The first wildcard of an absolute pattern is not in its first segment. -/
  rooted : (Path.mk (fixedFront pattern)).isAbsolute = (Path.mk pattern).isAbsolute
  /-- A directory that the pattern is seen from brings no wildcards with it. -/
  plain : (Path.mk pattern).isAbsolute = false → ∀ c ∈ base.text.toList, IsPlain c
  /-- No `..` climbs out of what the wildcards stand for, and none takes all of it away. -/
  ups : ['.', '.'] ∉ (Path.mk pattern).segments ∨
    '\\' ∉ pattern.toList ∧ .up ∉ wildNames pattern ∧ wildNames pattern ≠ []

instance (base : Path) (pattern : String) : Decidable (Descends base pattern) :=
  decidable_of_iff
    ((Path.mk (fixedFront pattern)).isAbsolute = (Path.mk pattern).isAbsolute ∧
      ((Path.mk pattern).isAbsolute = false → base.text.toList.all (IsPlain ·) = true) ∧
      (['.', '.'] ∉ (Path.mk pattern).segments ∨
        '\\' ∉ pattern.toList ∧ .up ∉ wildNames pattern ∧ wildNames pattern ≠ []))
    ⟨fun ⟨rooted, plain, ups⟩ => ⟨rooted, fun h => by simpa using plain h, ups⟩,
      fun h => ⟨h.rooted, fun hp => by simpa using h.plain hp, h.ups⟩⟩

/-- The normal form of a pattern begins with a directory without wildcards, and that directory is
the place that files are listed below. -/
def Anchored (base : Path) (pattern : String) : Prop :=
  ∃ d : Path, ∃ rest, fullChars base pattern = d.folder ++ rest ∧ hasWildcard d.folder = false ∧
    d.isAbsolute = true ∧ d.normalize = listingRoot base pattern

/-! ## Characters -/

/-- A text without wildcards has neither a star nor a question mark. -/
theorem hasWildcard_eq_false_iff : hasWildcard cs = false ↔ ∀ c ∈ cs, c ≠ '*' ∧ c ≠ '?' := by
  simp [hasWildcard]

/-- Separators are unified one by one. -/
theorem unifySeparators_append (cs ds : List Char) :
    unifySeparators (cs ++ ds) = unifySeparators cs ++ unifySeparators ds :=
  List.map_append

/-- Without backslashes there is nothing to unify. -/
theorem unifySeparators_of_not_mem (h : '\\' ∉ cs) : unifySeparators cs = cs := by
  rw [unifySeparators, List.map_congr_left, List.map_id']
  intro c hc
  rw [if_neg]
  rintro rfl
  exact h hc

/-- A path keeps its root when its separators become of one kind. -/
theorem isAbsolute_unified (h : p.isAbsolute = true) :
    (Path.mk (unified p)).isAbsolute = true := by
  obtain ⟨cs, hcs⟩ := Path.isAbsolute_eq_true_iff.1 h
  rw [Path.isAbsolute_eq_true_iff, unified, String.toList_ofList, hcs]
  exact ⟨unifySeparators cs, rfl⟩

/-! ## The fixed front and what is behind it -/

/-- The fixed front has no wildcard. -/
theorem not_hasWildcard_fixedFront (pattern : String) :
    ∀ c ∈ (fixedFront pattern).toList, c ≠ '*' ∧ c ≠ '?' := by
  intro c hc
  rw [fixedFront, String.toList_ofList] at hc
  rcases Path.mem_intercalate hc with rfl | ⟨segment, hsegment, hc⟩
  · decide
  · have hwild := List.mem_takeWhile_imp hsegment
    rw [Bool.not_eq_true', hasWildcard_eq_false_iff] at hwild
    exact hwild c hc

/-- The components of the fixed front are those of the segments without wildcards. -/
theorem components_fixedFront (pattern : String) :
    (Path.mk (fixedFront pattern)).segments.filterMap (component? false) =
      (((unifySeparators pattern.toList).splitOn '/').takeWhile fun s => !hasWildcard s).filterMap
        (component? false) := by
  rw [Path.segments, fixedFront, String.toList_ofList]
  by_cases hfront : ((unifySeparators pattern.toList).splitOn '/').takeWhile
      (fun s => !hasWildcard s) = []
  · rw [hfront]
    rfl
  · rw [List.splitOn_intercalate '/' _ hfront]
    exact fun segment hsegment =>
      Text.not_mem_of_mem_splitOn ((List.takeWhile_sublist _).subset hsegment)

/-- The components of a pattern are those of its fixed front and those behind it. -/
theorem components_pattern (pattern : String) :
    ((unifySeparators pattern.toList).splitOn '/').filterMap (component? false) =
      (Path.mk (fixedFront pattern)).segments.filterMap (component? false) ++
        (wildSegments pattern).filterMap (component? false) := by
  rw [components_fixedFront, wildSegments, ← List.filterMap_append,
    List.takeWhile_append_dropWhile]

/-- There is nothing to unify in a plain directory. -/
theorem unifySeparators_folder (h : ∀ c ∈ base.text.toList, IsPlain c) :
    unifySeparators base.folder = base.folder := by
  refine unifySeparators_of_not_mem fun hmem => ?_
  rcases Path.mem_folder hmem with heq | hmem
  · cases heq
  · exact (h _ hmem).1 rfl

/-- The components of a pattern as seen from a directory, its separators being of one kind. -/
theorem Descends.components_join (h : Descends base pattern) (hbase : base.isAbsolute = true) :
    (Path.mk (unified (base.join ⟨pattern⟩))).components =
      (base.join ⟨fixedFront pattern⟩).components ++
        (wildSegments pattern).filterMap (component? false) := by
  have hjoin := isAbsolute_unified (Path.isAbsolute_join hbase ⟨pattern⟩)
  cases habsolute : (Path.mk pattern).isAbsolute with
  | true =>
    -- The pattern and its front both stand for themselves.
    have hfront := h.rooted.trans habsolute
    rw [Path.components_of_isAbsolute hjoin, Path.join, if_pos habsolute, Path.join, if_pos hfront,
      Path.components_of_isAbsolute hfront, Path.segments, unified, String.toList_ofList,
      components_pattern]
    rfl
  | false =>
    -- Both are joined to a directory that the backslashes of the pattern leave as it is.
    have hfront := h.rooted.trans habsolute
    have htext : (Path.mk (unified (base.join ⟨pattern⟩))).text.toList =
        base.folder ++ unifySeparators pattern.toList := by
      rw [unified, String.toList_ofList, Path.text_join hbase habsolute, unifySeparators_append,
        unifySeparators_folder (h.plain habsolute)]
    rw [Path.components_of_folder hbase htext, Path.components_join hbase hfront,
      components_pattern, List.append_assoc]

/-- The place that files are listed below has no wildcards in it. -/
theorem Descends.plain_front (h : Descends base pattern) :
    ∀ c ∈ (base.join ⟨fixedFront pattern⟩).text.toList, c ≠ '*' ∧ c ≠ '?' :=
  Path.forall_mem_join (by decide) (fun hfront c hc => (h.plain (h.rooted ▸ hfront) c hc).2)
    (not_hasWildcard_fixedFront pattern)

/-! ## Patterns without backslashes -/

/-- Where `..` takes away only what the wildcards stand for, the names of the fixed front stay. -/
theorem Descends.anchored_of_ups (h : Descends base pattern) (hbase : base.isAbsolute = true)
    (hslash : '\\' ∉ pattern.toList) (hup : .up ∉ wildNames pattern)
    (hne : wildNames pattern ≠ []) : Anchored base pattern := by
  have hjoin := Path.isAbsolute_join hbase ⟨pattern⟩
  have hfront := Path.isAbsolute_join hbase ⟨fixedFront pattern⟩
  have hplain : ∀ c ∈ (base.join ⟨pattern⟩).text.toList, c ≠ '\\' :=
    Path.forall_mem_join (by decide) (fun habsolute c hc => (h.plain habsolute c hc).1)
      fun c hc heq => hslash (heq ▸ hc)
  have hnormal : ∀ c ∈ (base.absolutize ⟨pattern⟩).text.toList, c ≠ '\\' :=
    Path.forall_mem_normalize (by decide) (by decide) hplain
  have hcomponents := h.components_join hbase
  rw [unified, unifySeparators_of_not_mem fun hmem => hplain _ hmem rfl, String.ofList_toList]
    at hcomponents
  have hroot : listingRoot base pattern =
      ofNames true (normalNames true (base.join ⟨fixedFront pattern⟩).components) :=
    Path.normalize_of_isAbsolute hfront
  -- The normal components of the pattern are those of the place, and then what the wildcards name.
  refine ⟨listingRoot base pattern,
    ['/'].intercalate ((wildNames pattern).map fun c => c.text.toList), ?_, ?_,
    Path.isAbsolute_absolutize hbase _, Path.isNormal_absolutize _ _⟩
  · rw [fullChars, unifySeparators_of_not_mem fun hmem => hnormal _ hmem rfl, Path.absolutize,
      Path.normalize_of_isAbsolute hjoin, hcomponents, Path.normalNames_append hup, ← wildNames,
      Path.text_ofNames_append (Path.isStep_of_isAbsolute hfront) hne, hroot]
  · rw [hasWildcard_eq_false_iff]
    intro c hc
    rcases Path.mem_folder hc with rfl | hc
    · decide
    · exact Path.forall_mem_normalize (by decide) (by decide) h.plain_front c hc

/-! ## Patterns without `..` -/

/-- The components that a segment stands for when its separators are of one kind. -/
def unifiedComponents (segment : List Char) : List Component :=
  ((unifySeparators segment).splitOn '/').filterMap (component? false)

/-- Separators are unified segment by segment. -/
theorem unifySeparators_intercalate (ls : List (List Char)) :
    unifySeparators (['/'].intercalate ls) = ['/'].intercalate (ls.map unifySeparators) := by
  cases ls with
  | nil => rfl
  | cons l ls =>
    rw [List.map_cons, Path.intercalate_cons, Path.intercalate_cons, unifySeparators_append,
      List.flatMap_map]
    simp only [unifySeparators, List.map_flatMap]
    rfl

/-- The components of a path with unified separators are those that its segments stand for. -/
theorem components_unified (h : p.isAbsolute = true) :
    (Path.mk (unified p)).components = .root :: p.segments.flatMap unifiedComponents := by
  -- The text is cut at its separators first, and then every segment at its backslashes.
  have hne : p.segments.map unifySeparators ≠ [] := by simp [Path.segments]
  have htext : unifySeparators p.text.toList =
      ['/'].intercalate (p.segments.map unifySeparators) := by
    rw [← unifySeparators_intercalate, Path.intercalate_segments]
  rw [Path.components_of_isAbsolute (isAbsolute_unified h), Path.segments, unified,
    String.toList_ofList, htext, Path.splitOn_intercalate_eq_flatMap hne, List.flatMap_map,
    List.filterMap_flatMap]
  rfl

/-- Only segments that are components have components in them. -/
theorem flatMap_unifiedComponents (segments : List (List Char)) :
    ((segments.filterMap (component? false)).map fun c => c.text.toList).flatMap unifiedComponents =
      segments.flatMap unifiedComponents := by
  -- On the segments: those that name nothing have no unified components either.
  induction segments with
  | nil => rfl
  | cons segment segments ih =>
    cases hc : component? false segment with
    | none =>
      have hvoid : unifiedComponents segment = [] := by
        rcases Path.eq_of_component?_eq_none hc with rfl | rfl <;> rfl
      rw [List.filterMap_cons_none hc, ih, List.flatMap_cons, hvoid, List.nil_append]
    | some c =>
      rw [List.filterMap_cons_some hc, List.map_cons, List.flatMap_cons, List.flatMap_cons, ih,
        Path.text_of_component? hc]

/-- A path without `..` has the components of its normal form, its separators being of one kind. -/
theorem components_unified_normalize (h : p.isAbsolute = true) (hup : .up ∉ p.components) :
    (Path.mk (unified p.normalize)).components = (Path.mk (unified p)).components := by
  rw [Path.components_of_isAbsolute h, List.mem_cons, not_or] at hup
  obtain ⟨names, hnames⟩ := Path.exists_names_of_not_mem_up hup.2
  have hnormal : normalNames true p.components = p.segments.filterMap (component? false) := by
    rw [Path.components_of_isAbsolute h, hnames, Path.normalNames_names]
  -- Without `..` the normal form only leaves out the void segments and the dots.
  have hsteps := Path.isStep_of_isAbsolute h
  rw [hnormal] at hsteps
  rw [components_unified ((Path.isAbsolute_normalize p).trans h), components_unified h,
    ← flatMap_unifiedComponents p.segments, Path.normalize_of_isAbsolute h, hnormal]
  by_cases hne : p.segments.filterMap (component? false) = []
  · rw [hne]
    rfl
  · rw [Path.segments_ofNames hsteps hne]
    rfl

/-- A wildcard of a path stands in one of its segments. -/
theorem exists_mem_segments (h : hasWildcard p.text.toList = true) :
    ∃ segment ∈ p.segments, hasWildcard segment = true := by
  by_contra hnone
  push Not at hnone
  rw [← Bool.not_eq_false, hasWildcard_eq_false_iff] at h
  refine h fun c hc => ?_
  rw [← Path.intercalate_segments] at hc
  rcases Path.mem_intercalate hc with rfl | ⟨segment, hsegment, hc⟩
  · decide
  · exact hasWildcard_eq_false_iff.1 (Bool.eq_false_iff.2 (hnone segment hsegment)) c hc

/-- In front of the first segment with a wildcard is a directory without wildcards. -/
theorem exists_folder_of_hasWildcard (h : p.isAbsolute = true)
    (hwild : hasWildcard p.text.toList = true) :
    ∃ d : Path, ∃ rest, p.text.toList = d.folder ++ rest ∧ hasWildcard d.folder = false ∧
      d.isAbsolute = true ∧ d.components = .root ::
        (p.segments.takeWhile fun s => !hasWildcard s).filterMap (component? false) := by
  obtain ⟨more, hmore⟩ := Path.segments_of_isAbsolute h
  obtain ⟨wild, hmem, hwild⟩ := exists_mem_segments hwild
  -- The first segment is void, so something stands in front; a segment with a wildcard stands
  -- behind.
  have hfront : (p.segments.takeWhile fun s => !hasWildcard s) ≠ [] := by
    simp [hmore, hasWildcard]
  have hback : (p.segments.dropWhile fun s => !hasWildcard s) ≠ [] := by
    intro hnil
    have hall := List.dropWhile_eq_nil_iff.1 hnil wild hmem
    simp [hwild] at hall
  obtain ⟨d, hfolder, htext, hd, hcomponents⟩ :=
    Path.exists_folder_of_segments h List.takeWhile_append_dropWhile.symm hfront hback
  refine ⟨d, _, htext, ?_, hd, hcomponents⟩
  rw [hfolder, hasWildcard_eq_false_iff]
  intro c hc
  rcases List.mem_append.1 hc with hc | hc
  · rcases Path.mem_intercalate hc with rfl | ⟨s, hs, hc⟩
    · decide
    · exact hasWildcard_eq_false_iff.1 (by simpa using List.mem_takeWhile_imp hs) c hc
  · cases List.mem_singleton.1 hc
    decide

/-- Whether a component is a name with a wildcard. -/
def isWild : Component → Bool
  | .name s => hasWildcard s.toList
  | _ => false

/-- A segment has a wildcard if its component has. -/
theorem all_component? (segment : List Char) :
    ((component? false segment).all fun c => !isWild c) = !hasWildcard segment := by
  cases hc : component? false segment with
  | none => rcases Path.eq_of_component?_eq_none hc with rfl | rfl <;> rfl
  | some c =>
    rw [← Path.text_of_component? hc]
    cases c <;> rfl

/-- The components in front of the first wildcard are those of the segments in front of it. -/
theorem takeWhile_not_isWild (segments : List (List Char)) :
    (segments.filterMap (component? false)).takeWhile (fun c => !isWild c) =
      (segments.takeWhile fun s => !hasWildcard s).filterMap (component? false) := by
  simp only [List.takeWhile_filterMap, all_component?]

/-- A path with a wildcard in a component has a wildcard. -/
theorem hasWildcard_of_isWild {d : Component} (hd : d ∈ p.components) (h : isWild d = true) :
    hasWildcard p.text.toList = true := by
  cases d with
  | name s =>
    obtain ⟨c, hc, hwild⟩ := List.any_eq_true.1 h
    exact List.any_eq_true.2 ⟨c, Path.mem_of_mem_components hd hc, hwild⟩
  | root | here | up => cases h

/-- Behind the fixed front of a pattern stands a component with a wildcard, and it stands first. -/
theorem takeWhile_wildSegments (pattern : String) :
    ((wildSegments pattern).filterMap (component? false)).takeWhile (fun c => !isWild c) = [] := by
  have hfirst := List.head?_dropWhile_not (fun s => !hasWildcard s)
    ((unifySeparators pattern.toList).splitOn '/')
  rw [← wildSegments] at hfirst
  rw [takeWhile_not_isWild]
  cases hwild : wildSegments pattern with
  | nil => rfl
  | cons segment more =>
    rw [hwild] at hfirst
    rw [List.takeWhile_cons_of_neg (by simpa using hfirst)]
    rfl

/-- A pattern with a wildcard has a component with one. -/
theorem exists_isWild (h : hasWildcard pattern.toList = true) :
    ∃ c ∈ (wildSegments pattern).filterMap (component? false), isWild c = true := by
  have hunified : hasWildcard (Path.mk (unified ⟨pattern⟩)).text.toList = true := by
    -- A wildcard is no backslash.
    obtain ⟨c, hc, hwild⟩ := List.any_eq_true.1 h
    rw [unified, String.toList_ofList]
    refine List.any_eq_true.2 ⟨c, List.mem_map.2 ⟨c, hc, if_neg ?_⟩, hwild⟩
    rintro rfl
    cases hwild
  obtain ⟨segment, hsegment, hwild⟩ := exists_mem_segments hunified
  rw [Path.segments, unified, String.toList_ofList,
    ← List.takeWhile_append_dropWhile (p := fun s => !hasWildcard s)
      (l := (unifySeparators pattern.toList).splitOn '/'), List.mem_append] at hsegment
  have hmem := hsegment.resolve_left fun hfront => by
    simpa [hwild] using List.mem_takeWhile_imp hfront
  have hall := all_component? segment
  rw [hwild] at hall
  cases hc : component? false segment with
  | none =>
    rw [hc] at hall
    cases hall
  | some c =>
    rw [hc] at hall
    exact ⟨c, List.mem_filterMap.2 ⟨segment, hmem, hc⟩, by simpa using hall⟩

/-- Joined to a normal directory, a path that does not climb has nothing that climbs. -/
theorem not_mem_up_join (hbase : base.isAbsolute = true) (hnormal : base.IsNormal)
    (hup : ['.', '.'] ∉ p.segments) : .up ∉ (base.join p).components := by
  have hsegments : .up ∉ p.segments.filterMap (component? false) := by
    intro hmem
    obtain ⟨segment, hsegment, hc⟩ := List.mem_filterMap.1 hmem
    obtain rfl : ['.', '.'] = segment := Path.text_of_component? hc
    exact hup hsegment
  -- An absolute path takes the place of the base, any other is put behind its names.
  cases habsolute : p.isAbsolute with
  | true =>
    rw [Path.join, if_pos habsolute, Path.components_of_isAbsolute habsolute]
    simpa using hsegments
  | false =>
    obtain ⟨names, hnames⟩ := hnormal.exists_names hbase
    rw [Path.components_join hbase habsolute, hnames]
    simpa using hsegments

/-- Without `..` the components up to the first one with a wildcard are those of the fixed front. -/
theorem Descends.anchored_of_not_mem_up (h : Descends base pattern) (hbase : base.isAbsolute = true)
    (hnormal : base.IsNormal) (hwild : hasWildcard pattern.toList = true)
    (hup : ['.', '.'] ∉ (Path.mk pattern).segments) : Anchored base pattern := by
  have hjoin := Path.isAbsolute_join hbase ⟨pattern⟩
  have hfull : (unified (base.absolutize ⟨pattern⟩)).toList = fullChars base pattern := by
    rw [unified, String.toList_ofList, fullChars]
  have habsolute := isAbsolute_unified (Path.isAbsolute_absolutize hbase ⟨pattern⟩)
  -- Nothing is taken away, so normalizing leaves the components that the pattern has.
  have hcomponents : (Path.mk (unified (base.absolutize ⟨pattern⟩))).components = _ :=
    (components_unified_normalize hjoin (not_mem_up_join hbase hnormal hup)).trans
      (h.components_join hbase)
  have hfront : ∀ c ∈ (base.join ⟨fixedFront pattern⟩).components, isWild c = false := by
    intro c hc
    refine Bool.eq_false_iff.2 fun hisWild => ?_
    have hfront := hasWildcard_of_isWild hc hisWild
    rw [hasWildcard_eq_false_iff.2 h.plain_front] at hfront
    cases hfront
  obtain ⟨c, hc, hisWild⟩ := exists_isWild hwild
  obtain ⟨d, rest, hrest, hfolder, hd, htaken⟩ := exists_folder_of_hasWildcard habsolute <|
    hasWildcard_of_isWild (hcomponents ▸ List.mem_append_right _ hc) hisWild
  refine ⟨d, rest, hfull.symm.trans hrest, hfolder, hd, ?_⟩
  -- Both are what stands in front of the first component with a wildcard.
  have hplace : d.components = (base.join ⟨fixedFront pattern⟩).components := by
    calc
      d.components = (Path.mk (unified (base.absolutize ⟨pattern⟩))).components.takeWhile
          (fun c => !isWild c) := by
        rw [htaken, Path.components_of_isAbsolute habsolute, ← takeWhile_not_isWild]
        rfl
      _ = (base.join ⟨fixedFront pattern⟩).components := by
        rw [hcomponents, List.takeWhile_append_of_pos (by simpa using hfront),
          takeWhile_wildSegments, List.append_nil]
  rw [listingRoot, Path.absolutize, Path.normalize_of_isAbsolute hd, hplace,
    Path.normalize_of_isAbsolute (Path.isAbsolute_join hbase _)]

/-- A pattern that descends is anchored. -/
theorem Descends.anchored (h : Descends base pattern) (hbase : base.isAbsolute = true)
    (hnormal : base.IsNormal) (hwild : hasWildcard pattern.toList = true) :
    Anchored base pattern := by
  rcases h.ups with hup | ⟨hslash, hup, hne⟩
  · exact h.anchored_of_not_mem_up hbase hnormal hwild hup
  · exact h.anchored_of_ups hbase hslash hup hne

end BuildEngine.Glob
