import BuildEngine.Proofs.Graph.Lookup
import Mathlib.Logic.Relation

/-!
# Which projects are skipped

A failure goes on from a project to those of its dependents that wait to be built, from these to
theirs, and so on; it stops at every project that has been started or has finished. The search
behind `skipBehind` works through a queue and changes the graph while it searches. Its result is
said here without the queue: `statusAt_skipBehind` tells the new status of every project by
`CutOff`, which speaks of the graph before the search only.
-/

namespace BuildEngine.ProjectGraph

variable {g : ProjectGraph} {i j k : Nat} {is pending : List Nat} {s : ProjectStatus}

/-- A failure of the first project goes on to the second one. -/
def PassesOn (g : ProjectGraph) (i k : Nat) : Prop :=
  k ∈ g.dependentsAt i ∧ g.statusAt k = some .todo

/-- A failure of one of the pending projects reaches the project. -/
def CutOff (g : ProjectGraph) (pending : List Nat) (k : Nat) : Prop :=
  ∃ i ∈ pending, Relation.TransGen g.PassesOn i k

/-- What a failure reaches waits to be built. -/
theorem CutOff.statusAt (h : g.CutOff pending k) : g.statusAt k = some .todo := by
  obtain ⟨i, -, hik⟩ := h
  cases hik with
  | single hstep => exact hstep.2
  | tail _ hstep => exact hstep.2

/-- A failure also reaches the waiting dependents of what it reaches. -/
theorem CutOff.tail (h : g.CutOff pending j) (hk : g.PassesOn j k) : g.CutOff pending k := by
  obtain ⟨i, hi, hij⟩ := h
  exact ⟨i, hi, hij.tail hk⟩

/-- What a failure reaches depends on something pending or reached. -/
theorem CutOff.exists_mem_dependentsAt (h : g.CutOff pending k) :
    ∃ j, k ∈ g.dependentsAt j ∧ (j ∈ pending ∨ g.CutOff pending j) := by
  obtain ⟨i, hi, hik⟩ := h
  rcases Relation.TransGen.tail'_iff.1 hik with ⟨j, hij, hjk⟩
  refine ⟨j, hjk.1, ?_⟩
  rcases Relation.reflTransGen_iff_eq_or_transGen.1 hij with rfl | hij
  · exact .inl hi
  · exact .inr ⟨i, hi, hij⟩

/-! ## Skipping the waiting ones of some projects -/

/-- Exactly the waiting ones are skipped. -/
theorem mem_skipTodo_iff (g : ProjectGraph) (is : List Nat) (k : Nat) :
    k ∈ (g.skipTodo is).2 ↔ k ∈ is ∧ g.statusAt k = some .todo := by
  -- On the list: a position that waits is skipped at once, and later ones do not see it waiting.
  induction is generalizing g with
  | nil => simp [skipTodo]
  | cons i is ih =>
    unfold skipTodo
    split
    · next hi =>
      rw [isTodoAt_iff] at hi
      rw [List.mem_cons, ih, List.mem_cons]
      by_cases hk : k = i
      · simp [hk, hi]
      · rw [statusAt_finish_of_ne hk]
        simp [hk]
    · next hi =>
      rw [isTodoAt_iff] at hi
      rw [ih, List.mem_cons]
      by_cases hk : k = i
      · simp [hk, hi]
      · simp [hk]

/-- What is skipped is skipped afterwards, and all else is as before. -/
theorem statusAt_skipTodo (g : ProjectGraph) (is : List Nat) (k : Nat) :
    (g.skipTodo is).1.statusAt k =
      if k ∈ (g.skipTodo is).2 then some .skipped else g.statusAt k := by
  -- On the list: only the position in front changes, and only while it waits.
  induction is generalizing g with
  | nil => simp [skipTodo]
  | cons i is ih =>
    unfold skipTodo
    split
    · next hi =>
      rw [isTodoAt_iff] at hi
      simp only [ih, List.mem_cons]
      by_cases hk : k = i
      · simp [hk, statusAt_finish_self (.inl hi)]
      · rw [statusAt_finish_of_ne hk]
        simp [hk]
    · exact ih g

/-! ## What skipping keeps -/

/-- What every single skip of a project keeps, skipping the waiting ones of some keeps. -/
private theorem skipTodo_keeps {P : ProjectGraph → Prop}
    (h : ∀ g i, P g → P (finish g i .skipped)) (hg : P g) (is : List Nat) :
    P (g.skipTodo is).1 := by
  induction is generalizing g with
  | nil => exact hg
  | cons i is ih =>
    unfold skipTodo
    split
    · exact ih (h g i hg)
    · exact ih hg

/-- What every single skip of a project keeps, the whole search keeps. -/
theorem skipBehind_keeps {P : ProjectGraph → Prop} (h : ∀ g i, P g → P (finish g i .skipped))
    (hg : P g) (pending : List Nat) : P (g.skipBehind pending) := by
  fun_induction skipBehind g pending with
  | case1 g => exact hg
  | case2 g i rest _ next ih => exact ih (skipTodo_keeps h hg _)

/-- Skipping what waits changes neither projects nor edges. -/
@[simp]
theorem shape_skipBehind (g : ProjectGraph) (pending : List Nat) :
    (g.skipBehind pending).shape = g.shape :=
  skipBehind_keeps (P := fun g' => g'.shape = g.shape)
    (fun g' i h => (shape_finish g' i _).trans h) rfl pending

/-- Skipping some projects changes neither projects nor edges. -/
theorem shape_skipTodo (g : ProjectGraph) (is : List Nat) :
    (g.skipTodo is).1.shape = g.shape :=
  skipTodo_keeps (P := fun g' => g'.shape = g.shape)
    (fun g' i h => (shape_finish g' i _).trans h) rfl is

/-- Skipping what waits does not change what is waited for. -/
@[simp]
theorem outstandingAt_skipBehind (g : ProjectGraph) (pending : List Nat) (k : Nat) :
    (g.skipBehind pending).outstandingAt k = g.outstandingAt k :=
  skipBehind_keeps (P := fun g' => g'.outstandingAt k = g.outstandingAt k)
    (fun g' i h => (outstandingAt_finish g' i _ k).trans h) rfl pending

/-- Skipping what waits does not touch the flag. -/
@[simp]
theorem finished_skipBehind (g : ProjectGraph) (pending : List Nat) :
    (g.skipBehind pending).finished = g.finished :=
  skipBehind_keeps (P := fun g' => g'.finished = g.finished)
    (fun g' i h => (finished_finish g' i _).trans h) rfl pending

/-! ## The search as a whole -/

/-- One round of the search: what is behind the first pending project is skipped now, or is behind
what is pending afterwards. -/
private theorem cutOff_cons_iff (g : ProjectGraph) (i : Nat) (rest : List Nat) (k : Nat) :
    g.CutOff (i :: rest) k ↔
      k ∈ (g.skipTodo (g.dependentsAt i)).2 ∨
        (g.skipTodo (g.dependentsAt i)).1.CutOff (rest ++ (g.skipTodo (g.dependentsAt i)).2) k := by
  have hmem (k : Nat) : k ∈ (g.skipTodo (g.dependentsAt i)).2 ↔ g.PassesOn i k :=
    mem_skipTodo_iff g _ k
  -- A step of the new graph is a step of the old one that does not lead to what was skipped.
  have hstep (a b : Nat) : (g.skipTodo (g.dependentsAt i)).1.PassesOn a b ↔
      g.PassesOn a b ∧ b ∉ (g.skipTodo (g.dependentsAt i)).2 := by
    rw [PassesOn, PassesOn, dependentsAt_eq_of_shape (shape_skipTodo g _), statusAt_skipTodo]
    by_cases hb : b ∈ (g.skipTodo (g.dependentsAt i)).2 <;> simp [hb]
  generalize g.skipTodo (g.dependentsAt i) = next at hmem hstep
  obtain ⟨g', skipped⟩ := next
  constructor
  · rintro ⟨j, hj, hjk⟩
    induction hjk with
    | @single b hjb =>
      by_cases hb : b ∈ skipped
      · exact .inl hb
      · rcases List.mem_cons.1 hj with rfl | hj
        · exact absurd ((hmem b).2 hjb) hb
        · exact .inr ⟨j, List.mem_append_left _ hj, .single ((hstep j b).2 ⟨hjb, hb⟩)⟩
    | @tail b c _ hbc ih =>
      by_cases hc : c ∈ skipped
      · exact .inl hc
      · have hbc' := (hstep b c).2 ⟨hbc, hc⟩
        rcases ih with hb | hb
        · exact .inr ⟨b, List.mem_append_right _ hb, .single hbc'⟩
        · exact .inr (hb.tail hbc')
  · rintro (hk | ⟨j, hj, hjk⟩)
    · exact ⟨i, List.mem_cons_self, .single ((hmem k).1 hk)⟩
    · have hjk' : Relation.TransGen g.PassesOn j k :=
        Relation.TransGen.mono (fun a b hab => ((hstep a b).1 hab).1) j k hjk
      rcases List.mem_append.1 hj with hj | hj
      · exact ⟨j, List.mem_cons_of_mem _ hj, hjk'⟩
      · exact ⟨i, List.mem_cons_self, .head ((hmem j).1 hj) hjk'⟩

open Classical in
/-- The search skips exactly what the failure of a pending project reaches. -/
theorem statusAt_skipBehind (g : ProjectGraph) (pending : List Nat) (k : Nat) :
    (g.skipBehind pending).statusAt k =
      if g.CutOff pending k then some .skipped else g.statusAt k := by
  fun_induction skipBehind g pending with
  | case1 g => simp [CutOff]
  | case2 g i rest _ next ih =>
    rw [ih, statusAt_skipTodo]
    have hiff := cutOff_cons_iff g i rest k
    by_cases hskipped : k ∈ (g.skipTodo (g.dependentsAt i)).2
    · simp [hiff, hskipped]
    · simp only [hiff, hskipped, false_or, if_false]
      rfl

end BuildEngine.ProjectGraph
