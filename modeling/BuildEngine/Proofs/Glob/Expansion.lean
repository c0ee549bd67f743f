import BuildEngine.Proofs.Glob.Anchoring
import BuildEngine.Proofs.Glob.Matching

/-!
# Expanding a wildcard finds what matches it

What a pattern is expanded to are the matching files below the place that is listed for it, always.
Where the pattern is anchored all matching files are below that place (`isBelow_of_anchored`), so
expanding finds exactly what matches (`expand_agrees_with_matching`).
-/

namespace BuildEngine.Glob

variable {m : Memory} {base p : Path} {pattern : String}

/-- Whether a path is below a place. -/
def isBelow (place p : Path) : Bool :=
  p.startsWith place && !p.same place

/-- The stored paths that match a pattern. -/
def matching (m : Memory) (base : Path) (pattern : String) : List Path :=
  (m.files.map StoredFile.path).filter fun p => matchesPattern base pattern p.text

/-! ## What is found -/

/-- An absolute normal path is compared as it is written. -/
theorem fullChars_of_isNormal (hp : p.IsNormal) (h : p.isAbsolute = true) :
    fullChars base p.text = unifySeparators p.text.toList := by
  rw [fullChars, Path.absolutize, Path.join, if_pos h, hp]

/-- An absolute normal path matches a pattern with wildcards if its text matches the pieces. -/
theorem matchesPattern_eq (hwild : hasWildcard pattern.toList = true) (hp : p.IsNormal)
    (h : p.isAbsolute = true) :
    matchesPattern base pattern p.text =
      tokensMatch (tokens (fullChars base pattern)) (unifySeparators p.text.toList) := by
  rw [matchesPattern, if_pos hwild, fullChars_of_isNormal hp h]

/-- What is found are the matching files below the place that is listed. -/
theorem expand_eq_map_filter (hfaults : m.faults = [])
    (hfiles : ∀ f ∈ m.files, f.path.isAbsolute = true ∧ f.path.IsNormal)
    (hwild : hasWildcard pattern.toList = true) :
    expand (.memory m) base pattern =
      ((matching m base pattern).filter (isBelow (listingRoot base pattern))).map
        (matchOf base (listingRoot base pattern) (Path.mk pattern).isAbsolute) := by
  -- Without faults the listing is all stored files below the root.
  have hbelow : (FileSystem.memory m).filesBelow (listingRoot base pattern) =
      .ok ((m.files.map StoredFile.path).filter (isBelow (listingRoot base pattern))) := by
    rw [FileSystem.filesBelow, Memory.filesBelow, Memory.hasFault, hfaults]
    rfl
  have hmatch : (m.files.map StoredFile.path).filter
      (fun p => tokensMatch (tokens (fullChars base pattern)) (unifySeparators p.text.toList)) =
      matching m base pattern := by
    refine List.filter_congr fun p hp => ?_
    obtain ⟨f, hf, rfl⟩ := List.mem_map.1 hp
    exact (matchesPattern_eq hwild (hfiles f hf).2 (hfiles f hf).1).symm
  unfold expand
  dsimp only
  rw [← listingRoot, hbelow]
  dsimp only
  rw [List.filter_comm, hmatch]

/-! ## What matches is below an anchor -/

/-- A file that matches an anchored pattern is below the place that is listed. -/
theorem isBelow_of_anchored (hanchored : Anchored base pattern) (hp : p.IsNormal)
    (habsolute : p.isAbsolute = true) (hplain : '\\' ∉ p.text.toList) (hroot : p.text ≠ "/")
    (h : tokensMatch (tokens (fullChars base pattern)) (unifySeparators p.text.toList) = true) :
    isBelow (listingRoot base pattern) p = true := by
  -- The characters of the directory stand for themselves, so the file has them in front.
  obtain ⟨d, rest, hfull, hwild, hd, hnormal⟩ := hanchored
  rw [hfull, tokens_append hwild, unifySeparators_of_not_mem hplain, tokensMatch_literals_iff] at h
  obtain ⟨tail, htail, -⟩ := h
  have hcomponents := Path.components_of_folder hd htail
  have hne := Path.ne_nil_of_folder hp habsolute hroot htail
  -- The components of the directory are some of those of the file, so they are normal.
  obtain ⟨names, hnames⟩ := hp.exists_names habsolute
  obtain ⟨front, hfront⟩ : ∃ front : List String, d.components = .root :: front.map .name := by
    rw [hnames, Path.components_of_isAbsolute hd, List.cons_append, List.cons.injEq,
      List.map_eq_append_iff] at hcomponents
    obtain ⟨-, front, -, -, hfront, -⟩ := hcomponents
    exact ⟨front, by rw [Path.components_of_isAbsolute hd, hfront]⟩
  have hplace : (listingRoot base pattern).components = d.components := by
    rw [← hnormal, Path.components_normalize, hd, if_pos rfl, hfront, Path.normalNames_names]
    rfl
  rw [isBelow, Bool.and_eq_true, Bool.not_eq_true', Path.startsWith, Path.same, hplace, hcomponents,
    List.isPrefixOf_iff_prefix, decide_eq_false_iff_not]
  exact ⟨List.prefix_append _ _, fun heq => hne (List.append_right_eq_self.1 heq)⟩

/-! ## Expanding agrees with matching -/

/-- A pattern is expanded to the matching files below one place, in the order of the file system. A
pattern that descends is expanded to all matching files, as long as no file has a backslash in its
name and none is stored at the root itself. -/
theorem expand_agrees_with_matching (hfaults : m.faults = [])
    (hfiles : ∀ f ∈ m.files, f.path.isAbsolute = true ∧ f.path.IsNormal)
    (hbase : base.isAbsolute = true) (hnormal : base.IsNormal)
    (hwild : hasWildcard pattern.toList = true) :
    expand (.memory m) base pattern =
        ((matching m base pattern).filter (isBelow (listingRoot base pattern))).map
          (matchOf base (listingRoot base pattern) (Path.mk pattern).isAbsolute) ∧
      (Descends base pattern → (∀ f ∈ m.files, '\\' ∉ f.path.text.toList ∧ f.path.text ≠ "/") →
        expand (.memory m) base pattern =
          (matching m base pattern).map
            (matchOf base (listingRoot base pattern) (Path.mk pattern).isAbsolute)) := by
  have hfound : expand (.memory m) base pattern = _ := expand_eq_map_filter hfaults hfiles hwild
  refine ⟨hfound, fun hdescends hplain => ?_⟩
  -- Where the pattern descends, whatever matches it lies below the root anyway.
  have hall : (matching m base pattern).filter (isBelow (listingRoot base pattern)) =
      matching m base pattern := by
    rw [List.filter_eq_self]
    intro p hp
    obtain ⟨hstored, hmatch⟩ := List.mem_filter.1 hp
    obtain ⟨f, hf, rfl⟩ := List.mem_map.1 hstored
    obtain ⟨habsolute, hpath⟩ := hfiles f hf
    obtain ⟨hslash, hroot⟩ := hplain f hf
    rw [matchesPattern_eq hwild hpath habsolute] at hmatch
    exact isBelow_of_anchored (hdescends.anchored hbase hnormal hwild) hpath habsolute hslash hroot
      hmatch
  rw [hfound, hall]

/-- Files without contents. -/
def storing (texts : List String) : Memory :=
  { files := texts.map fun text => ⟨⟨text⟩, [], 0⟩, clock := 0, current := ⟨"/p"⟩, faults := [] }

/-- A pattern that climbs out of the base directory finds the files beside it, and not those in it.
-/
theorem expand_agrees_with_matching_beside_base :
    let m := storing ["/lib/a.cs", "/lib/x/b.cs", "/p/lib/c.cs"]
    matching m ⟨"/p"⟩ "../lib/**/*.cs" = [⟨"/lib/a.cs"⟩, ⟨"/lib/x/b.cs"⟩] ∧
      expand (.memory m) ⟨"/p"⟩ "../lib/**/*.cs" = [⟨"/lib/a.cs", ""⟩, ⟨"/lib/x/b.cs", "x/"⟩] := by
  intro m
  have hmatching : matching m ⟨"/p"⟩ "../lib/**/*.cs" = [⟨"/lib/a.cs"⟩, ⟨"/lib/x/b.cs"⟩] := by
    decide +kernel
  have hfiles : ∀ f ∈ m.files, f.path.isAbsolute = true ∧ f.path.IsNormal := by decide +kernel
  have hexpand := (@expand_agrees_with_matching m ⟨"/p"⟩ "../lib/**/*.cs" rfl hfiles (by decide)
    (by decide +kernel) (by decide)).2 (by decide +kernel) (by decide +kernel)
  refine ⟨hmatching, ?_⟩
  rw [hexpand, hmatching]
  decide +kernel

/-- An absolute pattern with a wildcard in its first segment does not descend: files are listed
below the base directory, so that a matching file elsewhere is missed. -/
theorem expand_misses_file_at_root :
    let m := storing ["/p/a.cs", "/x.cs"]
    matching m ⟨"/p"⟩ "/*.cs" = [⟨"/x.cs"⟩] ∧ expand (.memory m) ⟨"/p"⟩ "/*.cs" = [] := by
  decide +kernel

end BuildEngine.Glob
