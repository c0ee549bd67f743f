import BuildEngine.Path.Normal
import BuildEngine.Proofs.Text.Splitting
import Mathlib.Data.List.Induction
import Mathlib.Data.List.TakeWhile

/-!
# Normal paths

The components of a normal form are read back from its text (`components_ofNames`), so that a normal
form is its own normal form (`normalize_normalize`). Of the paths that name the same place one is
normal, and normal paths that name the same place are equal (`eq_of_same`).
-/

namespace BuildEngine.Path

variable {p q base : Path} {rooted : Bool} {n : Nat} {names : List String} {s : String}

/-- A name that a component can have: a segment that is neither empty nor `.` nor `..`. -/
def IsName (s : String) : Prop :=
  s ≠ "" ∧ s ≠ "." ∧ s ≠ ".." ∧ '/' ∉ s.toList

/-- A path that is its own normal form. -/
def IsNormal (p : Path) : Prop :=
  p.normalize = p

instance (p : Path) : Decidable p.IsNormal :=
  inferInstanceAs (Decidable (p.normalize = p))

/-! ## Segments -/

/-- A segment that stands for a name is one. -/
theorem isName_of_component? {first : Bool} {segment : List Char} (hslash : '/' ∉ segment)
    (h : component? first segment = some (.name s)) : IsName s := by
  -- The void segment, `.` and `..` give no name, so what is left is a name.
  unfold component? at h
  split at h
  · cases h
  · next hempty =>
    split at h
    · split at h <;> cases h
    · next hhere =>
      split at h
      · cases h
      · next hup =>
        cases h
        refine ⟨?_, ?_, ?_, by rwa [String.toList_ofList]⟩
        all_goals
          intro heq
          have hlist := congrArg String.toList heq
          rw [String.toList_ofList] at hlist
          contradiction

/-- No segment stands for the root. -/
theorem component?_ne_root (first : Bool) (segment : List Char) :
    component? first segment ≠ some .root := by
  unfold component?
  repeat' split
  all_goals simp

/-- A component is read off a segment, which tells the root apart. -/
theorem exists_segment {c : Component} (h : c ∈ p.components) :
    (c = .root ∧ p.isAbsolute = true) ∨
      ∃ first, ∃ segment ∈ p.segments, component? first segment = some c := by
  -- The root comes from no segment, every other component from one.
  unfold components at h
  split at h
  · next habsolute =>
    rcases List.mem_cons.1 h with rfl | h
    · exact .inl ⟨rfl, habsolute⟩
    · obtain ⟨segment, hsegment, hc⟩ := List.mem_filterMap.1 h
      exact .inr ⟨false, segment, hsegment, hc⟩
  · split at h
    · cases h
    · next first more hsegments =>
      rw [hsegments]
      rcases List.mem_append.1 h with h | h
      · exact .inr ⟨true, first, List.mem_cons_self, Option.mem_toList.1 h⟩
      · obtain ⟨segment, hsegment, hc⟩ := List.mem_filterMap.1 h
        exact .inr ⟨false, segment, List.mem_cons_of_mem _ hsegment, hc⟩

/-- The names of a path are names. -/
theorem isName_of_mem_components (h : .name s ∈ p.components) : IsName s := by
  rcases exists_segment h with ⟨hroot, -⟩ | ⟨first, segment, hsegment, hc⟩
  · cases hroot
  · exact isName_of_component? (Text.not_mem_of_mem_splitOn hsegment) hc

/-- An absolute path has the root among its components. -/
theorem isAbsolute_iff : p.isAbsolute = true ↔ .root ∈ p.components := by
  constructor
  · intro h
    rw [components, if_pos h]
    exact List.mem_cons_self
  · intro h
    rcases exists_segment h with ⟨-, habsolute⟩ | ⟨first, segment, -, hc⟩
    · exact habsolute
    · exact absurd hc (component?_ne_root first segment)

/-! ## Normal components -/

/-- Components are taken onto names with `..` below them, which there are none of at the root. -/
theorem foldl_pushNormal (rooted : Bool) (cs : List Component) :
    ∃ n, ∃ names : List String, cs.foldl (pushNormal rooted) [] =
        names.map Component.name ++ List.replicate n Component.up ∧
      (rooted = true → n = 0) ∧ ∀ s ∈ names, Component.name s ∈ cs := by
  -- The components are taken from the last one: the fold is over what stands in front of it.
  induction cs using List.reverseRecOn with
  | nil => exact ⟨0, [], rfl, fun _ => rfl, by simp⟩
  | append_singleton cs c ih =>
    obtain ⟨n, names, heq, hroot, hnames⟩ := ih
    have hold : ∀ s ∈ names, Component.name s ∈ cs ++ [c] :=
      fun s hs => List.mem_append_left _ (hnames s hs)
    rw [List.foldl_append, List.foldl_cons, List.foldl_nil, heq]
    cases c with
    | root => exact ⟨n, names, rfl, hroot, hold⟩
    | here => exact ⟨n, names, rfl, hroot, hold⟩
    | name s =>
      refine ⟨n, s :: names, rfl, hroot, ?_⟩
      rw [List.forall_mem_cons]
      exact ⟨by simp, hold⟩
    | up =>
      cases names with
      | cons s names => exact ⟨n, names, rfl, hroot, (List.forall_mem_cons.1 hold).2⟩
      | nil =>
        cases rooted with
        | true =>
          obtain rfl := hroot rfl
          exact ⟨0, [], rfl, fun _ => rfl, by simp⟩
        | false =>
          refine ⟨n + 1, [], ?_, nofun, by simp⟩
          cases n <;> rfl

/-- The normal components of a path: `..`, not at the root, and then names. -/
theorem exists_normalNames (p : Path) :
    ∃ n, ∃ names : List String, normalNames p.isAbsolute p.components =
        List.replicate n Component.up ++ names.map Component.name ∧
      (p.isAbsolute = true → n = 0) ∧ ∀ s ∈ names, IsName s := by
  obtain ⟨n, names, heq, hroot, hnames⟩ := foldl_pushNormal p.isAbsolute p.components
  refine ⟨n, names.reverse, ?_, hroot, fun s hs => ?_⟩
  · rw [normalNames, heq, List.reverse_append, List.reverse_replicate, List.map_reverse]
  · exact isName_of_mem_components (hnames s (List.mem_reverse.1 hs))

/-! ## Reading a normal form back -/

section ReadBack

variable {cs : List Component}

/-- A component of a normal form: `..` or a name. -/
def IsStep (c : Component) : Prop :=
  c = .up ∨ ∃ s, c = .name s ∧ IsName s

/-- A step stands for itself when it is written. -/
theorem component?_of_isStep {c : Component} (h : IsStep c) (first : Bool) :
    component? first c.text.toList = some c := by
  rcases h with rfl | ⟨s, rfl, hempty, hhere, hup, -⟩
  · rfl
  · have hne {t : String} (hst : s ≠ t) : s.toList ≠ t.toList :=
      fun h => hst (String.toList_inj.1 h)
    have hempty : s.toList ≠ [] := hne hempty
    have hhere : s.toList ≠ ['.'] := hne hhere
    have hup : s.toList ≠ ['.', '.'] := hne hup
    rw [Component.text, component?, if_neg hempty, if_neg hhere, if_neg hup, String.ofList_toList]

/-- A step is written as a segment, which is not empty and holds no separator. -/
theorem text_of_isStep {c : Component} (h : IsStep c) :
    c.text.toList ≠ [] ∧ '/' ∉ c.text.toList := by
  rcases h with rfl | ⟨s, rfl, hempty, -, -, hslash⟩
  · exact ⟨by decide, by decide⟩
  · exact ⟨fun h => hempty (String.toList_eq_nil_iff.1 h), hslash⟩

/-- Written steps stand for themselves. -/
theorem filterMap_component? (hcs : ∀ c ∈ cs, IsStep c) (first : Bool) :
    (cs.map fun c => c.text.toList).filterMap (component? first) = cs := by
  induction cs with
  | nil => rfl
  | cons c cs ih =>
    rw [List.forall_mem_cons] at hcs
    rw [List.map_cons, List.filterMap_cons_some (component?_of_isStep hcs.1 first), ih hcs.2]

/-- The segments of a path of components. -/
theorem segments_ofNames (hcs : ∀ c ∈ cs, IsStep c) (hne : cs ≠ []) :
    (ofNames rooted cs).segments =
      (if rooted then [[]] else []) ++ cs.map fun c => c.text.toList := by
  have hslash : ∀ segment ∈ cs.map (fun c => c.text.toList), '/' ∉ segment := by
    intro segment hsegment
    obtain ⟨c, hc, rfl⟩ := List.mem_map.1 hsegment
    exact (text_of_isStep (hcs c hc)).2
  have hmap : cs.map (fun c => c.text.toList) ≠ [] := by simpa using hne
  have hsplit := List.splitOn_intercalate '/' hslash hmap
  unfold segments ofNames
  rw [String.toList_append, String.toList_intercalate, List.map_map]
  -- The slash in front of a rooted path adds one void segment.
  cases rooted with
  | false => exact hsplit
  | true =>
    rw [if_pos rfl, if_pos rfl]
    exact (List.splitOn_append_cons_self_of_not_mem List.not_mem_nil _).trans
      (congrArg (List.cons []) hsplit)

/-- A path of steps is absolute if it starts at the root. -/
theorem isAbsolute_ofNames (hcs : ∀ c ∈ cs, IsStep c) :
    (ofNames rooted cs).isAbsolute = rooted := by
  -- Without a root the first component is a text of its own that starts with no slash.
  cases rooted with
  | true => simp [isAbsolute, ofNames]
  | false =>
    cases cs with
    | nil => decide
    | cons c cs =>
      obtain ⟨hne, hslash⟩ := text_of_isStep (hcs c List.mem_cons_self)
      obtain ⟨x, more, hx⟩ := List.exists_cons_of_ne_nil hne
      have hhead : x ≠ '/' := by
        rintro rfl
        exact hslash (hx ▸ List.mem_cons_self)
      cases cs <;> simp [isAbsolute, ofNames, String.toList_intercalate, hx, hhead]

/-- The components of a path of components. -/
theorem components_ofNames (hcs : ∀ c ∈ cs, IsStep c) :
    (ofNames rooted cs).components = (if rooted then [.root] else []) ++ cs := by
  rw [components, isAbsolute_ofNames hcs]
  by_cases hne : cs = []
  · subst hne
    cases rooted <;> decide
  · rw [segments_ofNames hcs hne]
    cases rooted with
    | true => simp [component?, filterMap_component? hcs]
    | false =>
      cases cs with
      | nil => exact absurd rfl hne
      | cons c cs =>
        rw [List.forall_mem_cons] at hcs
        simp [component?_of_isStep hcs.1, filterMap_component? hcs.2]

end ReadBack

/-! ## Normal forms -/

/-- The normal components of a path are steps. -/
theorem isStep_of_mem_normalNames {c : Component}
    (h : c ∈ normalNames p.isAbsolute p.components) : IsStep c := by
  obtain ⟨n, names, heq, -, hnames⟩ := exists_normalNames p
  rw [heq] at h
  rcases List.mem_append.1 h with h | h
  · exact .inl (List.eq_of_mem_replicate h)
  · obtain ⟨s, hs, rfl⟩ := List.mem_map.1 h
    exact .inr ⟨s, rfl, hnames s hs⟩

/-- The normal form is absolute if the path is. -/
@[simp]
theorem isAbsolute_normalize (p : Path) : p.normalize.isAbsolute = p.isAbsolute :=
  isAbsolute_ofNames fun _ => isStep_of_mem_normalNames

/-- The components of the normal form are the root, if there is one, and the normal ones. -/
theorem components_normalize (p : Path) :
    p.normalize.components =
      (if p.isAbsolute then [.root] else []) ++ normalNames p.isAbsolute p.components :=
  components_ofNames fun _ => isStep_of_mem_normalNames

/-- Climbing on from where only climbing has led is climbing further. -/
theorem foldl_pushNormal_replicate (n m : Nat) :
    (List.replicate n Component.up).foldl (pushNormal false) (List.replicate m .up) =
      List.replicate (n + m) .up := by
  induction n generalizing m with
  | zero => rw [Nat.zero_add]; rfl
  | succ n ih =>
    have hpush : pushNormal false (List.replicate m .up) .up = List.replicate (m + 1) .up := by
      cases m <;> rfl
    rw [List.replicate_succ, List.foldl_cons, hpush, ih]
    congr 1
    omega

/-- Names are taken onto whatever stands there. -/
theorem foldl_pushNormal_names (rooted : Bool) (names : List String) (taken : List Component) :
    (names.map Component.name).foldl (pushNormal rooted) taken =
      (names.map Component.name).reverse ++ taken := by
  induction names generalizing taken with
  | nil => rfl
  | cons s names ih =>
    rw [List.map_cons, List.foldl_cons, ih, List.reverse_cons, List.append_assoc]
    rfl

/-- Normal components stay as they are. -/
theorem normalNames_normalize (p : Path) :
    normalNames p.isAbsolute p.normalize.components = normalNames p.isAbsolute p.components := by
  obtain ⟨n, names, heq, hroot, -⟩ := exists_normalNames p
  rw [components_normalize, heq, normalNames]
  -- At the root there are only names; elsewhere the `..` in front pile up before the names come.
  cases habsolute : p.isAbsolute with
  | true =>
    obtain rfl := hroot habsolute
    rw [if_pos rfl, List.replicate_zero, List.nil_append, List.singleton_append, List.foldl_cons,
      pushNormal, foldl_pushNormal_names, List.append_nil, List.reverse_reverse]
  | false =>
    have hups := foldl_pushNormal_replicate n 0
    rw [List.replicate_zero] at hups
    rw [if_neg (by simp), List.nil_append, List.foldl_append, hups, foldl_pushNormal_names,
      List.reverse_append, List.reverse_reverse, Nat.add_zero, List.reverse_replicate]

/-- A normal form is its own normal form. -/
theorem normalize_normalize (p : Path) : p.normalize.normalize = p.normalize := by
  rw [normalize, isAbsolute_normalize, normalNames_normalize, ← normalize]

/-- A normal form is normal. -/
theorem isNormal_normalize (p : Path) : p.normalize.IsNormal :=
  normalize_normalize p

/-- A path as seen from a base is normal. -/
theorem isNormal_absolutize (base p : Path) : (base.absolutize p).IsNormal :=
  isNormal_normalize _

/-- Normal paths that name the same place are equal. -/
theorem eq_of_same (hp : p.IsNormal) (hq : q.IsNormal) (h : p.same q = true) : p = q := by
  have hcomponents : p.components = q.components := of_decide_eq_true h
  have habsolute : p.isAbsolute = q.isAbsolute := by
    rw [Bool.eq_iff_iff, isAbsolute_iff, isAbsolute_iff, hcomponents]
  rw [← hp, ← hq, normalize, normalize, hcomponents, habsolute]

/-! ## Absolute paths -/

/-- The components of a normal absolute path are the root and names. -/
theorem IsNormal.exists_names (hp : p.IsNormal) (h : p.isAbsolute = true) :
    ∃ names : List String, p.components = .root :: names.map Component.name := by
  obtain ⟨n, names, heq, hroot, -⟩ := exists_normalNames p
  obtain rfl := hroot h
  refine ⟨names, ?_⟩
  have hcomponents := components_normalize p
  rw [hp, heq, if_pos h] at hcomponents
  exact hcomponents

/-- An absolute path begins with a separator. -/
theorem isAbsolute_eq_true_iff : p.isAbsolute = true ↔ ∃ cs, p.text.toList = '/' :: cs := by
  rw [isAbsolute, decide_eq_true_iff, List.head?_eq_some_iff]

/-- Seen from an absolute base every path is absolute. -/
theorem isAbsolute_join (h : base.isAbsolute = true) (p : Path) :
    (base.join p).isAbsolute = true := by
  obtain ⟨cs, hcs⟩ := isAbsolute_eq_true_iff.1 h
  rw [join]
  split
  · assumption
  · split <;> rw [isAbsolute_eq_true_iff] <;> simp [hcs]

/-- Seen from an absolute base every path is absolute in its normal form, too. -/
theorem isAbsolute_absolutize (h : base.isAbsolute = true) (p : Path) :
    (base.absolutize p).isAbsolute = true := by
  rw [absolutize, isAbsolute_normalize, isAbsolute_join h]

/-- The first segment of an absolute path is empty. -/
theorem segments_of_isAbsolute (h : p.isAbsolute = true) : ∃ more, p.segments = [] :: more := by
  obtain ⟨cs, hcs⟩ := isAbsolute_eq_true_iff.1 h
  exact ⟨_, by rw [segments, hcs, List.splitOn_cons_eq_if_modifyHead, if_pos (by simp)]⟩

/-- The segments that stand for nothing are the void ones. -/
theorem component?_eq_none_iff {segment : List Char} :
    component? false segment = none ↔ isVoid segment = true := by
  unfold component? isVoid
  split
  · next h => simp [h]
  · next h =>
    split
    · next h' => simp [h']
    · next h' => split <;> simp [h, h']

/-- Nothing is left of segments that are all void. -/
theorem dropVoidEnd_eq_nil_iff {segments : List (List Char)} :
    dropVoidEnd segments = [] ↔ ∀ segment ∈ segments, isVoid segment = true := by
  rw [dropVoidEnd, List.reverse_eq_nil_iff, List.dropWhile_eq_nil_iff]
  simp only [List.mem_reverse]

/-- The components of an absolute path are the root and the names behind it. -/
theorem components_of_isAbsolute (h : p.isAbsolute = true) :
    p.components = .root :: p.segments.filterMap (component? false) :=
  if_pos h

/-- A path with an empty head is absolute. -/
theorem isAbsolute_ofHead (segments : List (List Char)) :
    (ofHead (some []) segments).isAbsolute = true := by
  unfold ofHead
  cases dropVoidEnd segments with
  | nil => decide
  | cons segment kept => simp [isAbsolute, ofSegments, List.intercalate_cons_cons]

/-- Above an absolute path is an absolute path, unless it is the root. -/
theorem parent?_of_isAbsolute (h : p.isAbsolute = true) :
    p.components = [.root] ∨ ∃ d, p.parent? = some d ∧ d.isAbsolute = true := by
  obtain ⟨more, hmore⟩ := segments_of_isAbsolute h
  have hhead : p.splitHead = (some [], more) := by
    rw [splitHead, hmore]
    exact if_pos h
  -- Nothing but void segments behind the root, or one that the parent leaves out.
  cases hkept : dropVoidEnd more with
  | nil =>
    left
    rw [components_of_isAbsolute h, hmore, List.filterMap_cons_none rfl, List.cons.injEq]
    refine ⟨rfl, List.filterMap_eq_nil_iff.2 fun segment hsegment => ?_⟩
    exact component?_eq_none_iff.2 (dropVoidEnd_eq_nil_iff.1 hkept segment hsegment)
  | cons segment kept =>
    refine .inr ⟨ofHead (some []) (segment :: kept).dropLast, ?_, ?_⟩
    · simp [parent?, hhead, hkept]
    · exact isAbsolute_ofHead _

end BuildEngine.Path
