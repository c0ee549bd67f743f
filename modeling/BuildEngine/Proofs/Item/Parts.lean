import BuildEngine.Item.Metadata
import BuildEngine.Proofs.Path.Relative
import Mathlib.Data.List.DropRight
import Mathlib.Data.List.TakeDrop

/-!
# The parts of an item

The well-known values of an item fit together (`metadata_decomposes_item`): the directory, the name
and the extension are the identity as it was written, and with the root in front they are its full
path. The directory is cut off the characters of the identity and the name is cut at its last dot,
while the full path comes from the normal form. What the three have in common is the name behind the
last separator, which normalizing keeps (`Path.exists_absolutize_eq`).
-/

namespace BuildEngine

namespace Path

variable {cs : List Component} {names : List String} {s : String}

/-- The extension of a file name with the dot in front of it, or nothing. -/
def dotted (name : List Char) : List Char :=
  (splitExtension name).2.elim [] ('.' :: ·)

/-- A file name is what stands in front of its extension, and the extension. -/
theorem splitExtension_append_dotted (name : List Char) :
    (splitExtension name).1 ++ dotted name = name := by
  unfold dotted splitExtension
  rw [List.span_eq_takeWhile_dropWhile]
  split
  · exact List.append_nil name
  · next ext c stem heq =>
    obtain ⟨hext, hstem⟩ := Prod.mk.inj heq
    -- Read from the end, the extension stops at the first dot it meets.
    have hdot : c = '.' := by
      have hhead := List.head?_dropWhile_not (fun c => decide (c ≠ '.')) name.reverse
      rw [hstem] at hhead
      simpa using hhead
    have hname : name.reverse = ext ++ '.' :: stem := by
      rw [← List.takeWhile_append_dropWhile (p := fun c => decide (c ≠ '.')) (l := name.reverse),
        hext, hstem, hdot]
    split
    · exact List.append_nil name
    · -- The name was cut from its end, so the parts come out turned around.
      rw [← List.reverse_reverse name, hname]
      simp

/-- An absolute path is the root, the folders behind it and the name at its end. -/
theorem text_ofNames_concat (hcs : ∀ c ∈ cs, IsStep c) (s : String) :
    (ofNames true (cs ++ [.name s])).text = "/" ++ (ofNames false cs).asFolder ++ s := by
  refine String.toList_inj.1 ?_
  rw [text_ofNames, List.map_append, String.toList_append, String.toList_append, asFolder]
  by_cases hne : cs = []
  · subst hne
    have hempty : (ofNames false []).text = "" := rfl
    rw [if_pos hempty]
    simp [Component.text]
  · rw [intercalate_append (by simpa using hne) (by simp),
      if_neg (text_ofNames_ne_empty hcs hne false), String.toList_append, text_ofNames]
    simp [Component.text]

end Path

namespace Item

open BuildEngine.Path (IsName IsStep ofNames dotted isStep_of_mem_names)

variable {cs : List Char} {i : Item} {base p : Path} {names : List String} {s : String}

/-! ## The directory as it is written -/

/-- The characters behind the last `/`. -/
def lastPart (cs : List Char) : List Char :=
  cs.rtakeWhile (· ≠ '/')

/-- Behind the last separator there is none. -/
theorem not_mem_lastPart (cs : List Char) : '/' ∉ lastPart cs := fun h =>
  absurd (List.mem_rtakeWhile_imp h) (by decide)

/-- Without backslashes, the characters up to the last separator are all but the last part. -/
theorem upToSeparator_append_lastPart (h : '\\' ∉ cs) : upToSeparator cs ++ lastPart cs = cs := by
  have heq : upToSeparator cs = cs.rdropWhile fun c => c ≠ '/' && c ≠ '\\' := rfl
  rw [heq, lastPart]
  induction cs using List.reverseRecOn with
  | nil => rfl
  | append_singleton cs c ih =>
    rw [List.mem_append, not_or, List.mem_singleton] at h
    by_cases hc : c = '/'
    · subst hc
      rw [List.rdropWhile_concat_neg _ _ _ (by decide),
        List.rtakeWhile_concat_neg _ _ _ (by decide), List.append_nil]
    · rw [List.rdropWhile_concat_pos _ _ _ (by simp [hc, Ne.symm h.2]),
        List.rtakeWhile_concat_pos _ _ _ (by simp [hc]), ← List.append_assoc, ih h.1 rfl]

/-- A path whose last part is a name ends in that name. -/
theorem exists_steps_eq (hp : lastPart p.text.toList ∉ [[], ['.'], ['.', '.']]) :
    ∃ s front, s.toList = lastPart p.text.toList ∧ p.steps = front ++ [.name s] := by
  simp only [List.mem_cons, List.not_mem_nil, or_false, not_or] at hp
  obtain ⟨hempty, hhere, hup⟩ := hp
  have hlast : Path.component? false (lastPart p.text.toList) =
      some (.name (String.ofList (lastPart p.text.toList))) := by
    rw [Path.component?, if_neg hempty, if_neg hhere, if_neg hup]
  -- The last part is the last segment, because it has no separator in it.
  have hsplit : p.text.toList.rdropWhile (· ≠ '/') ++ lastPart p.text.toList = p.text.toList :=
    List.rdropWhile_append_rtakeWhile
  have hsingle := List.splitOn_eq_singleton (not_mem_lastPart p.text.toList)
  obtain ⟨front, hsegments⟩ : ∃ front, p.segments = front ++ [lastPart p.text.toList] := by
    rw [Path.segments]
    rcases List.eq_nil_or_concat (p.text.toList.rdropWhile (· ≠ '/')) with hnil | ⟨front, c, hfront⟩
    · -- There is no separator, so there is one segment.
      rw [hnil, List.nil_append] at hsplit
      exact ⟨[], by rwa [hsplit] at hsingle ⊢⟩
    · have hc : c = '/' := by
        have hlast := List.rdropWhile_last_not (fun c => decide (c ≠ '/')) p.text.toList
          (by rw [hfront]; simp)
        simp only [hfront, List.concat_eq_append, List.getLast_append_singleton] at hlast
        simpa using hlast
      rw [hfront, hc, List.concat_eq_append, List.append_assoc, List.singleton_append] at hsplit
      refine ⟨front.splitOn '/', ?_⟩
      conv_lhs => rw [← hsplit]
      rw [List.splitOn_append_cons_self, hsingle]
  refine ⟨_, front.filterMap (Path.component? false), String.toList_ofList, ?_⟩
  rw [Path.steps, hsegments, List.filterMap_append, List.filterMap_cons_some hlast,
    List.filterMap_nil]

/-! ## The values -/

/-- Metadata that is well known is computed from the item. -/
theorem metadataValue_name (i : Item) (base : Path) (w : WellKnown) :
    i.metadataValue base w.name = i.wellKnown base w := by
  have hname : WellKnown.ofName? w.name = some w := by cases w <;> decide
  rw [metadataValue, hname]

/-- The name of the file and its extension are the last part of the identity. -/
theorem filename_append_extension (base : Path) (h : (Path.mk i.identity).fileName? = some s) :
    i.wellKnown base .filename ++ i.wellKnown base .extension = s := by
  have hfilename : (i.wellKnown base .filename).toList = (Path.splitExtension s.toList).1 := by
    rw [wellKnown, Path.fileStem?, h, Option.map_some, Option.getD_some, String.toList_ofList]
  have hextension : (i.wellKnown base .extension).toList = dotted s.toList := by
    rw [wellKnown, Path.extension?, h, Option.bind_some, dotted]
    cases (Path.splitExtension s.toList).2 <;> simp
  refine String.toList_inj.1 ?_
  rw [String.toList_append, hfilename, hextension, Path.splitExtension_append_dotted]

/-- The directory of an absolute path is the folders behind its root. -/
theorem directoryText_ofNames (hnames : ∀ t ∈ names ++ [s], IsName t) :
    directoryText (ofNames true ((names ++ [s]).map .name)) =
      (ofNames false (names.map .name)).asFolder := by
  have hsteps := isStep_of_mem_names hnames
  rw [List.map_append, List.map_singleton] at hsteps ⊢
  have hfront : ∀ c ∈ names.map Component.name, IsStep c :=
    fun c hc => hsteps c (List.mem_append_left _ hc)
  have htext : (ofNames false (names.map .name)).text = String.intercalate "/" names := by
    rw [ofNames, if_neg Bool.false_ne_true, String.empty_append, List.map_map]
    exact congrArg (String.intercalate "/") (List.map_id names)
  rw [directoryText, Path.parent?_ofNames hsteps, Option.getD_some, Path.components_ofNames hfront,
    if_pos rfl, List.singleton_append, List.filterMap_cons_none rfl, List.filterMap_map,
    Path.asFolder, htext]
  -- Every component behind the root is a name.
  simp only [Function.comp_def, List.filterMap_some]
  by_cases hempty : names = []
  · subst hempty
    rfl
  · rw [if_neg hempty, if_neg]
    rw [← htext]
    exact Path.text_ofNames_ne_empty hfront (by simpa using hempty) false

/-- For an item whose identity has no backslashes and ends in a name, whatever metadata it carries:
the directory, the file name and the extension are the identity as it is written, and the root, the
directory behind it, the file name and the extension are the full path. -/
theorem metadata_decomposes_item (i : Item) (base : Path) (hbase : base.isAbsolute = true)
    (hplain : '\\' ∉ i.identity.toList)
    (hname : lastPart i.identity.toList ∉ [[], ['.'], ['.', '.']]) :
    i.metadataValue base "RelativeDir" ++ i.metadataValue base "Filename" ++
          i.metadataValue base "Extension" = i.metadataValue base "Identity" ∧
      i.metadataValue base "RootDir" ++ i.metadataValue base "Directory" ++
          i.metadataValue base "Filename" ++ i.metadataValue base "Extension" =
        i.metadataValue base "FullPath" := by
  obtain ⟨s, front, hs, hsteps⟩ := exists_steps_eq (p := ⟨i.identity⟩) hname
  have hfile := filename_append_extension base (Path.fileName?_of_steps hsteps)
  obtain ⟨names, hnames, hfull⟩ := Path.exists_absolutize_eq hbase hsteps
  have hvalue := i.metadataValue_name base
  constructor
  -- What stands in front of the name is the relative directory, as it is written.
  · calc
      _ = i.wellKnown base .relativeDir ++ i.wellKnown base .filename ++
          i.wellKnown base .extension := by
        rw [← hvalue, ← hvalue, ← hvalue]
        rfl
      _ = i.wellKnown base .relativeDir ++ s := by rw [String.append_assoc, hfile]
      _ = i.wellKnown base .identity := by
        refine String.toList_inj.1 ?_
        have hdirectory :
            (i.wellKnown base .relativeDir).toList = upToSeparator i.identity.toList :=
          String.toList_ofList
        rw [String.toList_append, hs, hdirectory]
        exact upToSeparator_append_lastPart hplain
      _ = _ := (hvalue .identity).symm
  -- In the full path the name stands behind its folders, which the directory lists.
  · have hfront : ∀ c ∈ names.map Component.name, IsStep c :=
      isStep_of_mem_names fun t ht => hnames t (List.mem_append_left _ ht)
    calc
      _ = i.wellKnown base .rootDir ++ i.wellKnown base .directory ++ i.wellKnown base .filename ++
          i.wellKnown base .extension := by
        rw [← hvalue, ← hvalue, ← hvalue, ← hvalue]
        rfl
      _ = i.wellKnown base .rootDir ++ i.wellKnown base .directory ++ s := by
        rw [String.append_assoc, hfile]
      _ = "/" ++ (ofNames false (names.map .name)).asFolder ++ s := by
        rw [wellKnown, wellKnown, hfull, directoryText_ofNames hnames, rootText,
          if_pos (Path.isAbsolute_ofNames (isStep_of_mem_names hnames))]
      _ = i.wellKnown base .fullPath := by
        rw [wellKnown, hfull, List.map_append, ← Path.text_ofNames_concat hfront]
        rfl
      _ = _ := (hvalue .fullPath).symm

/-- An item beside the base directory whose name begins and ends with a dot, and which carries a
file name of its own. -/
theorem metadata_decomposes_item_dots :
    let i : Item := ⟨"Source", "../lib//.a.b.", [("Filename", "c")]⟩
    let base : Path := ⟨"/s/app"⟩
    base.isAbsolute = true ∧ '\\' ∉ i.identity.toList ∧
      lastPart i.identity.toList ∉ [[], ['.'], ['.', '.']] ∧
      i.metadataValue base "RelativeDir" ++ i.metadataValue base "Filename" ++
          i.metadataValue base "Extension" = "../lib//.a.b." ∧
        i.metadataValue base "RootDir" ++ i.metadataValue base "Directory" ++
          i.metadataValue base "Filename" ++ i.metadataValue base "Extension" =
            "/s/lib/.a.b." := by
  intro i base
  have hbase : base.isAbsolute = true := by decide
  have hplain : '\\' ∉ i.identity.toList := by decide
  have hname : lastPart i.identity.toList ∉ [[], ['.'], ['.', '.']] := by decide +kernel
  obtain ⟨hidentity, hfull⟩ := metadata_decomposes_item i base hbase hplain hname
  have hpath : i.metadataValue base "FullPath" = "/s/lib/.a.b." := by decide +kernel
  exact ⟨hbase, hplain, hname, hidentity, hfull.trans hpath⟩

end Item

end BuildEngine
