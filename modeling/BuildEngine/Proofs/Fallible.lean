import Mathlib.Data.List.Forall2

/-!
# Computations that may fail

When computations one after the other, or one for each element of a list, come to a result, and when
they come to an error: the first one that fails decides.
-/

namespace BuildEngine

variable {ε ε' α β : Type} {x : Except ε α} {a : α} {b : β} {e : ε} {e' : ε'}

/-- Two steps come to a result only if the first one does. -/
theorem exists_of_bind_eq_ok {f : α → Except ε β} (h : x >>= f = .ok b) :
    ∃ a, x = .ok a ∧ f a = .ok b := by
  cases x with
  | error e => cases h
  | ok a => exact ⟨a, rfl, h⟩

/-- Two steps fail with the error of the one that fails. -/
theorem bind_eq_error_iff {f : α → Except ε β} :
    x >>= f = .error e ↔ x = .error e ∨ ∃ a, x = .ok a ∧ f a = .error e := by
  cases x <;> simp [bind, Except.bind]

/-- Telling errors in other words does not make a step fail, and every error has its words. -/
theorem mapError_eq_error_iff {f : ε → ε'} :
    x.mapError f = .error e' ↔ ∃ e, x = .error e ∧ e' = f e := by
  cases x with
  | ok a => exact iff_of_false nofun (by simp)
  | error e =>
    constructor
    · rintro ⟨⟩
      exact ⟨e, rfl, rfl⟩
    · rintro ⟨_, ⟨⟩, rfl⟩
      rfl

/-- Telling errors in other words leaves results as they are. -/
theorem mapError_eq_ok_iff {f : ε → ε'} : x.mapError f = .ok a ↔ x = .ok a := by
  cases x with
  | ok b =>
    constructor <;> rintro ⟨⟩ <;> rfl
  | error e => exact iff_of_false nofun nofun

/-- What is done with a result does not matter to errors. -/
theorem map_eq_error_iff {f : α → β} : x.map f = .error e ↔ x = .error e := by
  cases x with
  | ok a => exact iff_of_false nofun nofun
  | error e' =>
    constructor <;> rintro ⟨⟩ <;> rfl

/-- A changed result is that of a result. -/
theorem map_eq_ok_iff {f : α → β} : x.map f = .ok b ↔ ∃ a, x = .ok a ∧ f a = b := by
  cases x with
  | error e => exact iff_of_false nofun (by simp)
  | ok a =>
    constructor
    · rintro ⟨⟩
      exact ⟨a, rfl, rfl⟩
    · rintro ⟨_, ⟨⟩, rfl⟩
      rfl

section MapM

variable {f : α → Except ε β} {as : List α} {bs : List β}

/-- It does not matter whether the steps are set out first. -/
theorem mapM_map_id (f : α → Except ε β) (as : List α) : (as.map f).mapM id = as.mapM f := by
  induction as with
  | nil => rfl
  | cons a as ih => simp [List.mapM_cons, ih]

/-- A list of results holds the result of each element in its place. -/
theorem mapM_eq_ok_iff : as.mapM f = .ok bs ↔ List.Forall₂ (fun a b => f a = .ok b) as bs := by
  -- On the list. An element that fails decides, whatever the rest would give.
  induction as generalizing bs with
  | nil => cases bs <;> simp [pure, Except.pure]
  | cons a as ih =>
    rw [List.mapM_cons]
    cases ha : f a with
    | error e => cases bs <;> simp [ha, bind, Except.bind]
    | ok b =>
      cases has : as.mapM f with
      | error e =>
        have hno (bs : List β) : ¬ List.Forall₂ (fun a b => f a = .ok b) as bs := by
          rw [← ih, has]
          exact nofun
        cases bs <;> simp [hno, bind, Except.bind]
      | ok bs' =>
        have hbs (bs : List β) : List.Forall₂ (fun a b => f a = .ok b) as bs ↔ bs = bs' := by
          rw [← ih, has, Except.ok.injEq, eq_comm]
        cases bs <;> simp [hbs, ha, bind, Except.bind, pure, Except.pure, eq_comm]

/-- Results that are asked for one by one are all there, or none is. -/
theorem mapM_toOption (f : α → Except ε β) (as : List α) :
    (as.mapM fun a => (f a).toOption) = (as.mapM f).toOption := by
  induction as with
  | nil => rfl
  | cons a as ih =>
    rw [List.mapM_cons, List.mapM_cons, ih]
    cases f a with
    | error e => rfl
    | ok b => cases as.mapM f <;> rfl

/-- The first element that fails decides. -/
theorem mapM_eq_error_iff : as.mapM f = .error e ↔ ∃ before a behind, as = before ++ a :: behind ∧
    (∀ a' ∈ before, ∃ b, f a' = .ok b) ∧ f a = .error e := by
  induction as with
  | nil => simp [pure, Except.pure]
  | cons a as ih =>
    rw [List.mapM_cons]
    cases ha : f a with
    | error e' =>
      constructor
      · rintro ⟨⟩
        exact ⟨[], a, as, rfl, by simp, ha⟩
      · rintro ⟨before, a', behind, heq, hbefore, ha'⟩
        -- What fails first is the head, or is found in the rest.
        cases before with
        | nil =>
          cases heq
          rw [ha] at ha'
          cases ha'
          rfl
        | cons c before =>
          obtain ⟨b, hb⟩ := hbefore a (by rw [(List.cons.inj heq).1]; exact List.mem_cons_self)
          rw [ha] at hb
          cases hb
    | ok b =>
      have hrest : (do let bs ← as.mapM f; pure (b :: bs)) = Except.error e ↔
          as.mapM f = .error e := by
        cases as.mapM f <;> simp [bind, Except.bind, pure, Except.pure]
      refine hrest.trans (ih.trans ?_)
      constructor
      · rintro ⟨before, a', behind, rfl, hbefore, ha'⟩
        exact ⟨a :: before, a', behind, rfl, List.forall_mem_cons.2 ⟨⟨b, ha⟩, hbefore⟩, ha'⟩
      · rintro ⟨before, a', behind, heq, hbefore, ha'⟩
        cases before with
        | nil =>
          cases heq
          rw [ha] at ha'
          cases ha'
        | cons c before =>
          obtain ⟨rfl, rfl⟩ := List.cons.inj heq
          exact ⟨before, a', behind, rfl, (List.forall_mem_cons.1 hbefore).2, ha'⟩

/-- If nothing fails there are results. -/
theorem exists_mapM_eq_ok (h : ∀ a ∈ as, ∃ b, f a = .ok b) : ∃ bs, as.mapM f = .ok bs := by
  cases has : as.mapM f with
  | ok bs => exact ⟨bs, rfl⟩
  | error e =>
    obtain ⟨before, a, behind, rfl, -, ha⟩ := mapM_eq_error_iff.1 has
    obtain ⟨b, hb⟩ := h a (by simp)
    cases ha.symm.trans hb

/-- Every element has its result among the results. -/
theorem exists_of_mapM_eq_ok (h : as.mapM f = .ok bs) (ha : a ∈ as) : ∃ b ∈ bs, f a = .ok b := by
  rw [mapM_eq_ok_iff] at h
  induction h with
  | nil => cases ha
  | cons hb _ ih =>
    rcases List.mem_cons.1 ha with rfl | ha
    · exact ⟨_, List.mem_cons_self, hb⟩
    · obtain ⟨b, hmem, hb⟩ := ih ha
      exact ⟨b, List.mem_cons_of_mem _ hmem, hb⟩

/-- Every result is that of an element. -/
theorem exists_of_mem_mapM (h : as.mapM f = .ok bs) (hb : b ∈ bs) : ∃ a ∈ as, f a = .ok b := by
  rw [mapM_eq_ok_iff] at h
  induction h with
  | nil => cases hb
  | cons ha _ ih =>
    rcases List.mem_cons.1 hb with rfl | hb
    · exact ⟨_, List.mem_cons_self, ha⟩
    · obtain ⟨a, hmem, ha⟩ := ih hb
      exact ⟨a, List.mem_cons_of_mem _ hmem, ha⟩

end MapM

end BuildEngine
