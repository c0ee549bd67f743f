import BuildEngine.Proofs.Build.Building

/-!
# Work, one turn after the other

Work goes through its agenda in turns. In each one it looks at the target in front, which is
dropped, put off for one that it needs, or built, unless the work ends there (`Site.turn`, with one
rule for each of these in `Site.Takes`).

Every turn that does not end the work lowers the potential of the agenda, so work comes to its end
after a number of turns that is known beforehand (`Site.exists_turns_eq_work`). What every turn
keeps holds in front of the last one, which decides how the work ends (`Site.exists_last_turn`).
-/

namespace BuildEngine

/-- How many turns the work on an agenda may still take. A target that is touched for the first time
comes to the front at most twice more than it stands on the agenda. -/
def Agenda.potential {p : Project} (a : Agenda p) (pr : Progress p) : Nat :=
  a.pending.length + 2 * a.untouched pr

/-- No more targets are untouched than there are targets. -/
theorem Agenda.untouched_le {p : Project} (a : Agenda p) (pr : Progress p) :
    a.untouched pr ≤ p.targets.length := by
  unfold untouched
  exact Nat.le_trans List.countP_le_length (Nat.le_of_eq List.length_finRange)

/-- Building the target in front leaves no more untouched. -/
theorem Agenda.untouched_complete_le {p : Project} (pr : Progress p) (next : p.TargetIndex)
    (needs waiting expanding : List p.TargetIndex) :
    Agenda.untouched ⟨waiting, expanding.filter (· ≠ next)⟩ ((pr.learn next needs).complete next) ≤
      Agenda.untouched ⟨next :: waiting, expanding⟩ pr := by
  refine List.countP_mono_left fun i _ hi => ?_
  simp only [Progress.complete, Progress.completed_learn, List.mem_append, List.mem_singleton,
    List.mem_filter, not_or, decide_eq_true_eq] at hi ⊢
  obtain ⟨⟨hcompleted, hne⟩, hexpanding, -⟩ := hi
  refine ⟨hcompleted, fun hi => hexpanding ⟨hi, hne⟩, fun heq => hne ?_⟩
  cases heq
  rfl

namespace Site

variable {site : Site} {s s₁ s₂ s' : Session} {pr pr₁ pr' : Progress site.project}
  {a a' : Agenda site.project} {next needed : site.project.TargetIndex}
  {needs waiting expanding : List site.project.TargetIndex} {e : BuildError}
  {r : Except BuildError Unit}

/-- What a turn of the work on an agenda comes to. -/
inductive Turn (site : Site) where
  /-- There may be more to do. -/
  | on (s : Session) (pr : Progress site.project) (a : Agenda site.project)
  /-- The work has ended. -/
  | done (s : Session) (pr : Progress site.project) (outcome : Except BuildError Unit)

/-- One turn of the work on an agenda. -/
def turn (site : Site) (s : Session) (pr : Progress site.project) (a : Agenda site.project) :
    site.Turn :=
  match a with
  | ⟨next :: waiting, expanding⟩ =>
    if pr.completed.contains next then .on s pr ⟨waiting, expanding⟩
    else
      match site.needsOf s pr next with
      | (s, .ok needs) =>
        match needs.find? fun i => !pr.completed.contains i with
        | none =>
          match site.runTarget s (site.project.target next) with
          | (s, .ok ()) =>
            .on s ((pr.learn next needs).complete next) ⟨waiting, expanding.filter (· ≠ next)⟩
          | (s, .error e) => .done s (pr.learn next needs) (.error e)
        | some needed =>
          if needed = next || expanding.contains needed then
            let e := BuildError.circular (site.project.target needed).name
              (site.project.target next).name
            .done (site.complain s e.message) (pr.learn next needs) (.error e)
          else .on s (pr.learn next needs) ⟨needed :: next :: waiting, next :: expanding⟩
      | (s, .error e) => .done s pr (.error e)
  | ⟨[], _⟩ => .done s pr (.ok ())

/-- Some turns, one after the other, as long as the work goes on. -/
def turns (site : Site) :
    Nat → Session → Progress site.project → Agenda site.project → site.Turn
  | 0, s, pr, a => .on s pr a
  | n + 1, s, pr, a =>
    match site.turn s pr a with
    | .on s pr a => turns site n s pr a
    | .done s pr outcome => .done s pr outcome

/-! ## Turns -/

/-- What can become of a turn. -/
inductive Takes (site : Site) (s : Session) (pr : Progress site.project) :
    Agenda site.project → site.Turn → Prop
  /-- Nothing is left to do. -/
  | finishes {expanding : List site.project.TargetIndex} :
    Takes site s pr ⟨[], expanding⟩ (.done s pr (.ok ()))
  /-- The target has been built already. -/
  | drops {next : site.project.TargetIndex} {waiting expanding : List site.project.TargetIndex} :
    next ∈ pr.completed →
      Takes site s pr ⟨next :: waiting, expanding⟩ (.on s pr ⟨waiting, expanding⟩)
  /-- What the target needs cannot be evaluated. -/
  | unknown {next : site.project.TargetIndex} {waiting expanding : List site.project.TargetIndex}
      {s₁ : Session} {e : BuildError} :
    next ∉ pr.completed → site.needsOf s pr next = (s₁, .error e) →
      Takes site s pr ⟨next :: waiting, expanding⟩ (.done s₁ pr (.error e))
  /-- The target needs one that waits for it, or itself. -/
  | circular {next needed : site.project.TargetIndex}
      {needs waiting expanding : List site.project.TargetIndex} {s₁ : Session} :
    next ∉ pr.completed → site.needsOf s pr next = (s₁, .ok needs) →
      (needs.find? fun i => i ∉ pr.completed) = some needed → needed = next ∨ needed ∈ expanding →
        Takes site s pr ⟨next :: waiting, expanding⟩
          (.done
            (site.complain s₁ (BuildError.circular (site.project.target needed).name
              (site.project.target next).name).message)
            (pr.learn next needs)
            (.error (.circular (site.project.target needed).name (site.project.target next).name)))
  /-- The target is put off for one that it needs. -/
  | putsOff {next needed : site.project.TargetIndex}
      {needs waiting expanding : List site.project.TargetIndex} {s₁ : Session} :
    next ∉ pr.completed → site.needsOf s pr next = (s₁, .ok needs) →
      (needs.find? fun i => i ∉ pr.completed) = some needed →
        ¬ (needed = next ∨ needed ∈ expanding) →
        Takes site s pr ⟨next :: waiting, expanding⟩
          (.on s₁ (pr.learn next needs) ⟨needed :: next :: waiting, next :: expanding⟩)
  /-- The target misses nothing and fails. -/
  | fails {next : site.project.TargetIndex}
      {needs waiting expanding : List site.project.TargetIndex} {s₁ s₂ : Session}
      {e : BuildError} :
    next ∉ pr.completed → site.needsOf s pr next = (s₁, .ok needs) →
      (∀ i ∈ needs, i ∈ pr.completed) →
        site.runTarget s₁ (site.project.target next) = (s₂, .error e) →
          Takes site s pr ⟨next :: waiting, expanding⟩ (.done s₂ (pr.learn next needs) (.error e))
  /-- The target misses nothing and is built. -/
  | builds {next : site.project.TargetIndex}
      {needs waiting expanding : List site.project.TargetIndex} {s₁ s₂ : Session} :
    next ∉ pr.completed → site.needsOf s pr next = (s₁, .ok needs) →
      (∀ i ∈ needs, i ∈ pr.completed) →
        site.runTarget s₁ (site.project.target next) = (s₂, .ok ()) →
          Takes site s pr ⟨next :: waiting, expanding⟩
            (.on s₂ ((pr.learn next needs).complete next)
              ⟨waiting, expanding.filter (· ≠ next)⟩)

/-- Every turn goes one of these ways. -/
theorem turn_takes (site : Site) (s : Session) (pr : Progress site.project)
    (a : Agenda site.project) : site.Takes s pr a (site.turn s pr a) := by
  -- The turn branches as the rules do, in the order in which the code asks.
  match a with
  | ⟨[], expanding⟩ => exact .finishes
  | ⟨next :: waiting, expanding⟩ =>
    rw [turn]
    split
    · next hi => exact .drops (List.contains_iff_mem.1 hi)
    · next hi =>
      have hni : next ∉ pr.completed := mt List.contains_iff_mem.2 hi
      split
      · next s₁ needs hneeds =>
        split
        · next hfind =>
          have hbuilt : ∀ i ∈ needs, i ∈ pr.completed := by simpa using hfind
          split
          · next s₂ hrun => exact .builds hni hneeds hbuilt hrun
          · next s₂ e hrun => exact .fails hni hneeds hbuilt hrun
        · next needed hfind =>
          have hmissing : (needs.find? fun i => i ∉ pr.completed) = some needed := by
            simpa using hfind
          split
          · next hcyclic => exact .circular hni hneeds hmissing (by simpa using hcyclic)
          · next hcyclic => exact .putsOff hni hneeds hmissing (by simpa using hcyclic)
      · next s₁ e hneeds => exact .unknown hni hneeds

/-! ## Work -/

/-- How the work goes on after a turn, up to its end. -/
def Turn.outcome : site.Turn → Session × Progress site.project × Except BuildError Unit
  | .on s pr a => site.work s pr a
  | .done s pr outcome => (s, pr, outcome)

/-- A target that misses one it needs is put off. -/
theorem work_of_missing (hni : next ∉ pr.completed)
    (hneeds : site.needsOf s pr next = (s₁, .ok needs))
    (hfind : (needs.find? fun i => i ∉ pr.completed) = some needed)
    (hcyclic : ¬ (needed = next ∨ needed ∈ expanding)) :
    site.work s pr ⟨next :: waiting, expanding⟩ =
      site.work s₁ (pr.learn next needs) ⟨needed :: next :: waiting, next :: expanding⟩ := by
  rw [work, if_neg hni, hneeds]
  simp only
  split
  · next h =>
    cases hfind.symm.trans h
    rw [if_neg hcyclic]
  · next h => cases hfind.symm.trans h

/-- A target that misses one which waits for it, or itself, ends the work. -/
theorem work_of_circular (hni : next ∉ pr.completed)
    (hneeds : site.needsOf s pr next = (s₁, .ok needs))
    (hfind : (needs.find? fun i => i ∉ pr.completed) = some needed)
    (hcyclic : needed = next ∨ needed ∈ expanding) :
    site.work s pr ⟨next :: waiting, expanding⟩ =
      (site.complain s₁ (BuildError.circular (site.project.target needed).name
          (site.project.target next).name).message,
        pr.learn next needs,
        .error (.circular (site.project.target needed).name (site.project.target next).name)) := by
  rw [work, if_neg hni, hneeds]
  simp only
  split
  · next h =>
    cases hfind.symm.trans h
    rw [if_pos hcyclic]
  · next h => cases hfind.symm.trans h

/-- A target that misses none and runs well is built. -/
theorem work_of_completes (hni : next ∉ pr.completed)
    (hneeds : site.needsOf s pr next = (s₁, .ok needs))
    (hfind : (needs.find? fun i => i ∉ pr.completed) = none)
    (hrun : site.runTarget s₁ (site.project.target next) = (s₂, .ok ())) :
    site.work s pr ⟨next :: waiting, expanding⟩ =
      site.work s₂ ((pr.learn next needs).complete next)
        ⟨waiting, expanding.filter (· ≠ next)⟩ := by
  rw [work, if_neg hni, hneeds]
  simp only
  split
  · next h => cases hfind.symm.trans h
  · rw [hrun]

/-- A target that misses none and fails ends the work. -/
theorem work_of_aborts (hni : next ∉ pr.completed)
    (hneeds : site.needsOf s pr next = (s₁, .ok needs))
    (hfind : (needs.find? fun i => i ∉ pr.completed) = none)
    (hrun : site.runTarget s₁ (site.project.target next) = (s₂, .error e)) :
    site.work s pr ⟨next :: waiting, expanding⟩ = (s₂, pr.learn next needs, .error e) := by
  rw [work, if_neg hni, hneeds]
  simp only
  split
  · next h => cases hfind.symm.trans h
  · rw [hrun]

/-- Work starts with a turn. -/
theorem Takes.work_eq {t : site.Turn} (h : site.Takes s pr a t) : site.work s pr a = t.outcome := by
  cases h with
  | finishes => rw [work]; rfl
  | drops hi => rw [work, if_pos hi]; rfl
  | unknown hi hneeds =>
    rw [work, if_neg hi, hneeds]
    rfl
  | circular hi hneeds hfind hcyclic => exact work_of_circular hi hneeds hfind hcyclic
  | putsOff hi hneeds hfind hcyclic => exact work_of_missing hi hneeds hfind hcyclic
  | fails hi hneeds hbuilt hrun => exact work_of_aborts hi hneeds (by simpa using hbuilt) hrun
  | builds hi hneeds hbuilt hrun => exact work_of_completes hi hneeds (by simpa using hbuilt) hrun

/-! ## The end of the work -/

/-- A turn that does not end the work leaves less to do. -/
theorem Takes.potential_lt (h : site.Takes s pr a (.on s' pr' a')) :
    a'.potential pr' < a.potential pr := by
  unfold Agenda.potential
  -- A drop shortens the list; the other two turns touch a target that was untouched or finish one.
  cases h with
  | @drops next waiting expanding hi =>
    have hle : Agenda.untouched ⟨waiting, expanding⟩ pr ≤
        Agenda.untouched ⟨next :: waiting, expanding⟩ pr :=
      Agenda.untouched_drop_le hi
    simp only [List.length_cons]
    omega
  | @putsOff next needed needs waiting expanding _ hi hneeds hfind hcyclic =>
    have hlt : Agenda.untouched ⟨needed :: next :: waiting, next :: expanding⟩
        (pr.learn next needs) < Agenda.untouched ⟨next :: waiting, expanding⟩ pr :=
      Agenda.untouched_push_lt hfind hcyclic
    simp only [List.length_cons]
    omega
  | @builds next needs waiting expanding =>
    have hle := Agenda.untouched_complete_le pr next needs waiting expanding
    simp only [List.length_cons]
    omega

/-- The work on an agenda ends, and after how many turns at most is known beforehand. -/
theorem exists_turns_eq_work (site : Site) (s : Session) (pr : Progress site.project)
    (a : Agenda site.project) :
    ∃ n ≤ a.potential pr + 1, ∃ s' pr' r,
      site.turns n s pr a = .done s' pr' r ∧ site.work s pr a = (s', pr', r) := by
  -- On the potential, which every turn that goes on makes smaller.
  induction hpotential : a.potential pr using Nat.strongRecOn generalizing s pr a with
  | ind m ih =>
    have htakes := site.turn_takes s pr a
    cases hturn : site.turn s pr a with
    | done s' pr' r =>
      rw [hturn] at htakes
      exact ⟨1, by omega, s', pr', r, by rw [turns, hturn], htakes.work_eq⟩
    | on s₁ pr₁ a₁ =>
      rw [hturn] at htakes
      have hlt := htakes.potential_lt
      obtain ⟨n, hn, s', pr', r, hturns, hwork⟩ := ih _ (hpotential ▸ hlt) s₁ pr₁ a₁ rfl
      refine ⟨n + 1, by omega, s', pr', r, ?_, htakes.work_eq.trans hwork⟩
      rw [turns, hturn]
      exact hturns

/-- What every turn keeps holds in front of the turn that ends the work. -/
theorem exists_last_turn {P : Session → Progress site.project → Agenda site.project → Prop}
    (hkeeps : ∀ {s pr a s' pr' a'}, P s pr a → site.Takes s pr a (.on s' pr' a') → P s' pr' a')
    (h : P s pr a) (hwork : site.work s pr a = (s', pr', r)) :
    ∃ s₁ pr₁ a₁, P s₁ pr₁ a₁ ∧ site.Takes s₁ pr₁ a₁ (.done s' pr' r) := by
  obtain ⟨n, -, _, _, _, hturns, hwork'⟩ := site.exists_turns_eq_work s pr a
  cases hwork'.symm.trans hwork
  clear hwork hwork'
  -- On the turns taken: the last of them is the one that does not go on.
  induction n generalizing s pr a with
  | zero => cases hturns
  | succ n ih =>
    have htakes := site.turn_takes s pr a
    rw [turns] at hturns
    cases hturn : site.turn s pr a with
    | done s₁ pr₁ r₁ =>
      rw [hturn] at hturns htakes
      cases hturns
      exact ⟨s, pr, a, h, htakes⟩
    | on s₁ pr₁ a₁ =>
      rw [hturn] at hturns htakes
      exact ih (hkeeps h htakes) hturns

end Site

end BuildEngine
