import BuildEngine.Proofs.Glob.Expansion
import BuildEngine.Proofs.Path.Relative

/-!
# A match leads back to its file

A match carries two texts that are cut from its file on their own: the identity behind the base
directory, and the folders behind the place that is listed. Both lead back to the file
(`matchOf_identity`, `matchOf_recursiveDir`), so that whoever reads them finds the file that matched
(`expand_leads_back`).
-/

namespace BuildEngine.Glob

open BuildEngine.Path (IsName ofNames isStep_of_mem_names)

variable {base root file : Path} {names : List String} {rooted : Bool}

/-! ## Texts without backslashes -/

/-- A path without backslashes is unified already. -/
theorem unified_of_not_mem {p : Path} (h : '\\' ∉ p.text.toList) : unified p = p.text := by
  rw [unified, unifySeparators_of_not_mem h, String.ofList_toList]

/-- A path of names without backslashes is unified already. -/
theorem unified_ofNames (h : ∀ s ∈ names, '\\' ∉ s.toList) :
    unified (ofNames rooted (names.map .name)) = (ofNames rooted (names.map .name)).text := by
  refine unified_of_not_mem fun hmem => ?_
  rw [Path.text_ofNames, List.mem_append] at hmem
  rcases hmem with hmem | hmem
  · cases rooted <;> simp at hmem
  · rcases Path.mem_intercalate hmem with heq | ⟨segment, hsegment, hmem⟩
    · cases heq
    · simp only [List.map_map, List.mem_map, Function.comp_apply] at hsegment
      obtain ⟨s, hs, rfl⟩ := hsegment
      exact h s hs hmem

/-- An absolute normal path without backslashes is that of names without backslashes. -/
theorem exists_plain_names (hp : file.IsNormal) (h : file.isAbsolute = true)
    (hplain : '\\' ∉ file.text.toList) :
    ∃ names : List String, (∀ s ∈ names, IsName s) ∧ (∀ s ∈ names, '\\' ∉ s.toList) ∧
      file = ofNames true (names.map .name) := by
  obtain ⟨names, hnames, rfl⟩ := hp.exists_ofNames h
  refine ⟨names, hnames, fun s hs hmem => hplain ?_, rfl⟩
  refine Path.mem_of_mem_components (s := s) ?_ hmem
  rw [Path.components_ofNames (isStep_of_mem_names hnames)]
  exact List.mem_append_right _ (List.mem_map_of_mem hs)

/-! ## The identity -/

/-- Seen from the base directory the identity is the file. It is absolute where the pattern is, and
where the file is not below the base directory. -/
theorem matchOf_identity (hbase : base.isAbsolute = true) (hnormal : base.IsNormal)
    (hfile : file.isAbsolute = true) (hfileNormal : file.IsNormal)
    (hplain : '\\' ∉ file.text.toList) (root : Path) (isAbsolute : Bool) :
    base.absolutize ⟨(matchOf base root isAbsolute file).identity⟩ = file ∧
      (Path.mk (matchOf base root isAbsolute file).identity).isAbsolute =
        (isAbsolute || !file.startsWith base) := by
  by_cases hbelow : isAbsolute = false ∧ file.startsWith base = true
  · obtain ⟨rfl, hbelow⟩ := hbelow
    obtain ⟨dirs, hdirs, rfl⟩ := hnormal.exists_ofNames hbase
    obtain ⟨names, hnames, hchars, rfl⟩ := exists_plain_names hfileNormal hfile hplain
    -- The names of the file begin with those of the directory, and the identity has the others.
    obtain ⟨more, rfl⟩ := (Path.startsWith_names_iff hnames hdirs).1 hbelow
    have hmore : ∀ s ∈ more, IsName s := fun s hs => hnames s (List.mem_append_right dirs hs)
    have hidentity : (matchOf (ofNames true (dirs.map .name)) root false
        (ofNames true ((dirs ++ more).map .name))).identity =
          (ofNames false (more.map .name)).text := by
      rw [matchOf, if_neg Bool.false_ne_true, List.map_append,
        Path.stripPrefix?_ofNames (List.map_append ▸ isStep_of_mem_names hnames), Option.getD_some]
      exact unified_ofNames fun s hs => hchars s (List.mem_append_right dirs hs)
    rw [hidentity, hbelow]
    exact ⟨Path.absolutize_ofNames hnames,
      Path.isAbsolute_ofNames (isStep_of_mem_names hmore)⟩
  · -- Everywhere else the identity is the whole file.
    have hidentity : (matchOf base root isAbsolute file).identity = file.text := by
      rw [matchOf, ← unified_of_not_mem hplain]
      cases isAbsolute with
      | true => rfl
      | false =>
        have hnone : file.stripPrefix? base = none := if_neg fun h => hbelow ⟨rfl, h⟩
        rw [if_neg Bool.false_ne_true, hnone, Option.getD_none]
    have hroot : (isAbsolute || !file.startsWith base) = true := by
      cases isAbsolute <;> simp_all
    rw [hidentity, hroot, Path.absolutize, Path.join, if_pos hfile]
    exact ⟨hfileNormal, hfile⟩

/-! ## The folders behind the listed place -/

/-- The folders of a match are those between the listed place and the directory of the file. -/
theorem recursiveDir_matchOf {dir : Path} (base : Path) (isAbsolute : Bool)
    (h : file.parent?.bind (·.stripPrefix? root) = some dir) (hdir : unified dir = dir.text) :
    (matchOf base root isAbsolute file).recursiveDir = dir.asFolder := by
  rw [matchOf, Path.asFolder]
  dsimp only
  rw [h, Option.map_some, hdir]
  split
  · next hnone => cases hnone
  · next hempty => rw [if_pos (Option.some.inj hempty)]
  · next text hne htext =>
    obtain rfl := Option.some.inj htext
    rw [if_neg hne]

/-- The folders behind the listed place, with a separator at the end if there are any, lead from
there to the directory of the file. -/
theorem matchOf_recursiveDir (hroot : root.isAbsolute = true) (hrootNormal : root.IsNormal)
    (hfile : file.isAbsolute = true) (hfileNormal : file.IsNormal)
    (hplain : '\\' ∉ file.text.toList) (hbelow : isBelow root file = true) (base : Path)
    (isAbsolute : Bool) :
    ∃ name, file.fileName? = some name ∧
      (root.join ⟨(matchOf base root isAbsolute file).recursiveDir⟩).join ⟨name⟩ = file ∧
        ((matchOf base root isAbsolute file).recursiveDir = "" ∨
          (matchOf base root isAbsolute file).recursiveDir.toList.getLast? = some '/') := by
  obtain ⟨dirs, hdirs, rfl⟩ := hrootNormal.exists_ofNames hroot
  obtain ⟨names, hnames, hchars, rfl⟩ := exists_plain_names hfileNormal hfile hplain
  -- Behind the names of the listed place stand the folders and the name of the file.
  rw [isBelow, Bool.and_eq_true, Path.startsWith_names_iff hnames hdirs] at hbelow
  obtain ⟨⟨behind, rfl⟩, hdifferent⟩ := hbelow
  have hne : behind ≠ [] := by
    rintro rfl
    simp [Path.same] at hdifferent
  obtain ⟨folders, name, rfl⟩ := (List.eq_nil_or_concat behind).resolve_left hne
  have hsplit : (dirs ++ folders.concat name).map Component.name =
      dirs.map .name ++ folders.map .name ++ [.name name] := by simp
  have hsteps := isStep_of_mem_names hnames
  rw [hsplit] at hsteps ⊢
  have hparent : (ofNames true (dirs.map .name ++ folders.map .name ++ [.name name])).parent?.bind
      (·.stripPrefix? (ofNames true (dirs.map .name))) =
        some (ofNames false (folders.map .name)) := by
    rw [Path.parent?_ofNames hsteps, Option.bind_some, Path.stripPrefix?_ofNames]
    exact fun c hc => hsteps c (List.mem_append_left _ hc)
  rw [recursiveDir_matchOf base isAbsolute hparent
    (unified_ofNames fun s hs => hchars s (by simp [hs]))]
  exact ⟨name, Path.fileName?_of_steps (Path.steps_ofNames hsteps), Path.join_asFolder_join hsteps,
    Path.asFolder_eq_empty_or _⟩

/-! ## Expanding -/

/-- Whatever a pattern is expanded to was found for a file below the listed place that it fits. -/
theorem exists_file_of_mem_expand {m : Memory} {pattern : String} {g : GlobMatch}
    (h : g ∈ expand (.memory m) base pattern) :
    ∃ f ∈ m.files, isBelow (listingRoot base pattern) f.path = true ∧
      tokensMatch (tokens (fullChars base pattern)) (unifySeparators f.path.text.toList) = true ∧
      g = matchOf base (listingRoot base pattern) (Path.mk pattern).isAbsolute f.path := by
  unfold expand at h
  dsimp only at h
  rw [← listingRoot, FileSystem.filesBelow, Memory.filesBelow] at h
  -- With a fault nothing is listed; otherwise a match is a listed file that fits.
  by_cases hfault : m.hasFault .enumerate (listingRoot base pattern) = true
  · rw [if_pos hfault] at h
    cases h
  · rw [if_neg hfault] at h
    dsimp only at h
    obtain ⟨p, hp, rfl⟩ := List.mem_map.1 h
    obtain ⟨hlisted, hfits⟩ := List.mem_filter.1 hp
    obtain ⟨hstored, hbelow⟩ := List.mem_filter.1 hlisted
    obtain ⟨f, hf, rfl⟩ := List.mem_map.1 hstored
    exact ⟨f, hf, hbelow, hfits, rfl⟩

/-- Each match that a pattern is expanded to leads back to the file that it was found for, one below
the listed place that matches the pattern. The file is what the identity names, seen from the base
directory. The identity is absolute if the pattern is or if the file is not below the base
directory, and relative otherwise. And the file stands in the folders of the match, seen from the
place that is listed. -/
theorem expand_leads_back (m : Memory) (base : Path) (pattern : String)
    (hfiles : ∀ f ∈ m.files, f.path.isAbsolute = true ∧ f.path.IsNormal ∧ '\\' ∉ f.path.text.toList)
    (hbase : base.isAbsolute = true) (hnormal : base.IsNormal) :
    ∀ g ∈ expand (.memory m) base pattern, ∃ f ∈ m.files,
      (hasWildcard pattern.toList = true → matchesPattern base pattern f.path.text = true) ∧
      isBelow (base.absolutize ⟨fixedFront pattern⟩) f.path = true ∧
      base.absolutize ⟨g.identity⟩ = f.path ∧
        (Path.mk g.identity).isAbsolute =
          ((Path.mk pattern).isAbsolute || !f.path.startsWith base) ∧
        ∃ name, f.path.fileName? = some name ∧
          ((base.absolutize ⟨fixedFront pattern⟩).join ⟨g.recursiveDir⟩).join ⟨name⟩ = f.path ∧
            (g.recursiveDir = "" ∨ g.recursiveDir.toList.getLast? = some '/') := by
  intro g hg
  obtain ⟨f, hf, hbelow, hfits, rfl⟩ := exists_file_of_mem_expand hg
  obtain ⟨hfile, hfileNormal, hplain⟩ := hfiles f hf
  -- Without a wildcard `matchesPattern` is not asked, so there is nothing to show.
  have hmatches (hwild : hasWildcard pattern.toList = true) :
      matchesPattern base pattern f.path.text = true :=
    (matchesPattern_eq hwild hfileNormal hfile).trans hfits
  obtain ⟨hidentity, habsolute⟩ := matchOf_identity hbase hnormal hfile hfileNormal hplain
    (listingRoot base pattern) (Path.mk pattern).isAbsolute
  exact ⟨f, hf, hmatches, hbelow, hidentity, habsolute,
    matchOf_recursiveDir (Path.isAbsolute_absolutize hbase _) (Path.isNormal_absolutize _ _) hfile
      hfileNormal hplain hbelow base _⟩

/-- A pattern that climbs out of the base directory finds a file beside it and one in it. -/
theorem expand_leads_back_beside_base :
    let m := storing ["/lib/x/b.cs", "/p/a.cs"]
    let base : Path := ⟨"/p"⟩
    let found : List GlobMatch := [⟨"/lib/x/b.cs", "lib/x/"⟩, ⟨"a.cs", "p/"⟩]
    (∀ f ∈ m.files, f.path.isAbsolute = true ∧ f.path.IsNormal ∧ '\\' ∉ f.path.text.toList) ∧
      base.isAbsolute = true ∧ base.IsNormal ∧ expand (.memory m) base "../**/?.cs" = found ∧
        ∀ g ∈ found, ∃ f ∈ m.files, matchesPattern base "../**/?.cs" f.path.text = true ∧
          base.absolutize ⟨g.identity⟩ = f.path := by
  intro m base found
  have hfiles : ∀ f ∈ m.files,
      f.path.isAbsolute = true ∧ f.path.IsNormal ∧ '\\' ∉ f.path.text.toList := by decide +kernel
  have hbase : base.isAbsolute = true := by decide
  have hnormal : base.IsNormal := by decide +kernel
  have hexpand : expand (.memory m) base "../**/?.cs" = found := by decide +kernel
  refine ⟨hfiles, hbase, hnormal, hexpand, fun g hg => ?_⟩
  obtain ⟨f, hf, hmatches, -, hidentity, -⟩ :=
    expand_leads_back m base "../**/?.cs" hfiles hbase hnormal g (hexpand ▸ hg)
  exact ⟨f, hf, hmatches (by decide), hidentity⟩

end BuildEngine.Glob
