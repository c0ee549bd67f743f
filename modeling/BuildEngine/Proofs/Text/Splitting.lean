import BuildEngine.Text.Blank
import Mathlib.Data.List.Basic

/-!
# Pieces of a text

The pieces that characters are cut into at a separator are free of it (`not_mem_of_mem_splitOn`).
Trimming takes characters away at both ends (`trimChars_sublist`), and all that are blank there
(`isTrimmed_trimChars`).
-/

namespace BuildEngine.Text

/-- No piece between separators holds one. -/
theorem not_mem_of_mem_splitOn {separator : Char} {cs piece : List Char}
    (h : piece ∈ cs.splitOn separator) : separator ∉ piece := by
  -- A character either ends the first piece or becomes its first character.
  induction cs generalizing piece with
  | nil =>
    rw [List.splitOn_nil, List.mem_singleton] at h
    simp [h]
  | cons c cs ih =>
    rw [List.splitOn_cons_eq_if_modifyHead] at h
    split at h
    · rcases List.mem_cons.1 h with rfl | h
      · simp
      · exact ih h
    · next hc =>
      cases hsplit : cs.splitOn separator with
      | nil => exact absurd hsplit (List.splitOn_ne_nil separator cs)
      | cons first more =>
        rw [hsplit] at h ih
        rcases List.mem_cons.1 h with rfl | h
        · have hne : separator ≠ c := fun heq => hc (beq_iff_eq.2 heq.symm)
          simp [hne, ih List.mem_cons_self]
        · exact ih (List.mem_cons_of_mem _ h)

section Trimming

variable (cs : List Char)

/-- Without the blanks at its end a text is a front of itself. -/
theorem trimEnd_prefix_self : trimEnd cs <+: cs := by
  rw [trimEnd, ← List.reverse_suffix, List.reverse_reverse]
  exact List.dropWhile_suffix isBlank

/-- What is left of a trimmed text stood in it. -/
theorem trimChars_sublist : (trimChars cs).Sublist cs :=
  (trimEnd_prefix_self _).sublist.trans (List.dropWhile_sublist isBlank)

/-- Behind the blanks in front comes no blank. -/
theorem not_isBlank_of_head?_dropWhile {c : Char} (h : (cs.dropWhile isBlank).head? = some c) :
    isBlank c = false := by
  have hnot := List.head?_dropWhile_not isBlank cs
  rwa [h] at hnot

/-- A trimmed text has no blank at either end. -/
theorem isTrimmed_trimChars : IsTrimmed (trimChars cs) := by
  refine ⟨fun c hc => ?_, fun c hc => ?_⟩
  · -- Nothing is taken away in front of what is left, so it begins where the trimmed start does.
    obtain ⟨more, hmore⟩ := List.head?_eq_some_iff.1 hc
    obtain ⟨blanks, hblanks⟩ := trimEnd_prefix_self (trimStart cs)
    refine not_isBlank_of_head?_dropWhile cs ?_
    rw [← trimStart, ← hblanks, ← trimChars, hmore, List.cons_append, List.head?_cons]
  · -- Trimming the end is trimming the start of the reversed characters.
    rw [trimChars, trimEnd, List.getLast?_reverse] at hc
    exact not_isBlank_of_head?_dropWhile _ hc

end Trimming

end BuildEngine.Text
