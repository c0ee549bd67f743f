import BuildEngine.Proofs.Path.Joining

/-!
# Lexical laws of paths

The normal form of a path is made from its text alone, and the directory that the path is seen from
may be normalized before (`normalize_join`). What decides it are the steps of the path, the
components that are neither the root nor `.`, and joining paths appends their steps (`steps_join`).

Project files, cache entries and the keys of the graph are told apart by normal forms, so they are
one if and only if their texts are (`lexical_laws`).
-/

namespace BuildEngine.Path

variable {p q base : Path} {rooted : Bool} {taken : List Component}

/-! ## Steps -/

/-- The steps of a path: what its segments stand for, leaving the root and `.` out. -/
def steps (p : Path) : List Component :=
  p.segments.filterMap (component? false)

/-- The empty path takes no steps. -/
theorem steps_of_text_eq_empty (h : p.text = "") : p.steps = [] := by
  rw [steps, segments, h]
  rfl

/-- In front of its steps a path has at most the root or a `.`. -/
theorem exists_components_eq (p : Path) :
    ∃ head, p.components = head ++ p.steps ∧ (head = [] ∨ head = [.root] ∨ head = [.here]) := by
  -- Only the first segment can be a root or a dot that counts.
  by_cases habsolute : p.isAbsolute = true
  · exact ⟨[.root], components_of_isAbsolute habsolute, .inr (.inl rfl)⟩
  · rw [components, if_neg habsolute, steps]
    cases p.segments with
    | nil => exact ⟨[], rfl, .inl rfl⟩
    | cons first more =>
      by_cases hhere : first = ['.']
      · subst hhere
        exact ⟨[.here], rfl, .inr (.inr rfl)⟩
      · have hfirst : component? true first = component? false first := by
          rw [component?, component?, if_neg hhere, if_neg hhere]
        refine ⟨[], ?_, .inl rfl⟩
        dsimp only
        rw [hfirst]
        cases hc : component? false first with
        | none => rw [List.filterMap_cons_none hc]; rfl
        | some c => rw [List.filterMap_cons_some hc]; rfl

/-- Only the steps of a path make a difference. -/
theorem foldl_pushNormal_components (rooted : Bool) (p : Path) (taken : List Component) :
    p.components.foldl (pushNormal rooted) taken = p.steps.foldl (pushNormal rooted) taken := by
  obtain ⟨head, heq, rfl | rfl | rfl⟩ := exists_components_eq p <;> rw [heq] <;> rfl

/-- The root and `.` do not matter behind the root. -/
theorem normalNames_components (rooted : Bool) (p : Path) :
    normalNames rooted p.components = normalNames rooted p.steps := by
  rw [normalNames, normalNames, foldl_pushNormal_components]

/-- The normal form is told by the steps and by whether the path is absolute. -/
theorem normalize_eq (p : Path) :
    p.normalize = ofNames p.isAbsolute (normalNames p.isAbsolute p.steps) := by
  rw [normalize, normalNames_components]

/-- The steps of a normal form come to the same as those of the path. -/
theorem foldl_pushNormal_steps_normalize (p : Path) :
    p.normalize.steps.foldl (pushNormal p.isAbsolute) [] =
      p.steps.foldl (pushNormal p.isAbsolute) [] := by
  have hnormal := normalNames_normalize p
  rwa [normalNames_components, normalNames_components, normalNames, normalNames,
    List.reverse_inj] at hnormal

/-! ## Joining -/

/-- A relative path is joined to an absolute one if the base is absolute. -/
theorem isAbsolute_join_of_not (hp : p.isAbsolute = false) :
    (base.join p).isAbsolute = base.isAbsolute := by
  cases hbase : base.isAbsolute with
  | true => exact isAbsolute_join hbase p
  | false =>
    by_cases hempty : base.text = ""
    · rw [join_of_text_eq_empty hempty, hp]
    · -- The joined text begins with the first character of the directory.
      have hchars : base.text.toList ≠ [] := mt String.toList_eq_nil_iff.1 hempty
      rw [isAbsolute, text_join_of_text_ne_empty hempty hp, folder, ← hbase, isAbsolute]
      split <;> simp [List.head?_append, List.head?_eq_some_head hchars]

/-- The steps of a joined path are those of its parts. -/
theorem steps_join (hp : p.isAbsolute = false) : (base.join p).steps = base.steps ++ p.steps := by
  by_cases hempty : base.text = ""
  · rw [join_of_text_eq_empty hempty, steps_of_text_eq_empty hempty, List.nil_append]
  · obtain ⟨front, hfolder, hfront⟩ := exists_folder base
    rw [steps, segments, text_join_of_text_ne_empty hempty hp, hfolder, List.append_assoc,
      List.singleton_append, List.splitOn_append_cons_self, List.filterMap_append, hfront]
    rfl

/-- The normal form of a joined path is that of the path joined to the normal directory. -/
theorem normalize_join (base p : Path) :
    (base.join p).normalize = (base.normalize.join p).normalize := by
  cases hp : p.isAbsolute with
  | true => rw [join, if_pos hp, join, if_pos hp]
  | false =>
    have hfold : (base.steps ++ p.steps).foldl (pushNormal base.isAbsolute) [] =
        (base.normalize.steps ++ p.steps).foldl (pushNormal base.isAbsolute) [] := by
      rw [List.foldl_append, List.foldl_append, foldl_pushNormal_steps_normalize]
    rw [normalize_eq, normalize_eq, isAbsolute_join_of_not hp, isAbsolute_join_of_not hp,
      isAbsolute_normalize, steps_join hp, steps_join hp, normalNames, normalNames, hfold]

/-! ## Laws -/

/-- The components of a normal form: behind the root there are only names, and without a root names
behind as many `..` as are left over. -/
theorem exists_components_normalize (p : Path) :
    ∃ ups, ∃ names : List String, p.normalize.components =
      (if p.isAbsolute then [.root] else List.replicate ups .up) ++ names.map .name := by
  obtain ⟨ups, names, heq, hroot, -⟩ := exists_normalNames p
  refine ⟨ups, names, ?_⟩
  rw [components_normalize, heq]
  cases habsolute : p.isAbsolute with
  | true =>
    obtain rfl := hroot habsolute
    rfl
  | false => rfl

/-- An absolute path is what it is from everywhere, once it is normal. -/
theorem absolutize_absolutize (hbase : base.isAbsolute = true) (p q : Path) :
    q.absolutize (base.absolutize p) = base.absolutize p := by
  rw [absolutize, join, if_pos (isAbsolute_absolutize hbase p)]
  exact isNormal_absolutize base p

/-- A normal form is its own normal form, is rooted where the path is, and has no `.`, and no `..`
but in front where there is no root. A directory may be normalized before a path is joined to it. An
absolute directory makes paths absolute, which then are the same seen from everywhere. Normal forms
that are the same as paths are the same as texts. -/
theorem lexical_laws (base p q : Path) :
    p.normalize.normalize.text = p.normalize.text ∧
      p.normalize.isAbsolute = p.isAbsolute ∧
        (∃ ups, ∃ names : List String, p.normalize.components =
          (if p.isAbsolute then [.root] else List.replicate ups .up) ++ names.map .name) ∧
          (base.join p).normalize = (base.normalize.join p).normalize ∧
            (base.isAbsolute = true → (base.absolutize p).isAbsolute = true ∧
              q.absolutize (base.absolutize p) = base.absolutize p) ∧
              (p.normalize.same q.normalize = true → p.normalize.text = q.normalize.text) := by
  refine ⟨congrArg text (normalize_normalize p), isAbsolute_normalize p,
    exists_components_normalize p, normalize_join base p, fun hbase => ?_, fun hsame => ?_⟩
  · exact ⟨isAbsolute_absolutize hbase p, absolutize_absolutize hbase p q⟩
  · exact congrArg text (eq_of_same (isNormal_normalize p) (isNormal_normalize q) hsame)

/-- Two spellings of a path that climbs out of its directory. -/
theorem lexical_laws_two_spellings :
    let base : Path := ⟨"/s/./app//"⟩
    let p : Path := ⟨"../lib//src/."⟩
    let q : Path := ⟨"x/../../lib/src"⟩
    base.isAbsolute = true ∧ (base.absolutize p).text = "/s/lib/src" ∧
      q.absolutize (base.absolutize p) = base.absolutize p ∧
        p.normalize.same q.normalize = true ∧ p.normalize.text = q.normalize.text := by
  intro base p q
  have hbase : base.isAbsolute = true := by decide
  have hsame : p.normalize.same q.normalize = true := by decide +kernel
  obtain ⟨-, -, -, -, habsolute, htext⟩ := lexical_laws base p q
  exact ⟨hbase, by decide +kernel, (habsolute hbase).2, hsame, htext hsame⟩

end BuildEngine.Path
