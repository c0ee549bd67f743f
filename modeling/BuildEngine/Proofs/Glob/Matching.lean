import BuildEngine.Glob.Basic

/-!
# Matching from the front

Whether pieces match is decided for all tails of a text at once, from the last piece to the first.
Read from the front it is the usual thing: a character at the head of the pattern has to be at the
head of the text, and the other pieces match what is left (`tokensMatch_literals_iff`). The key is
`row_cons`: the row of a text begins with the answer for the whole text and goes on with the row of
its tail.
-/

namespace BuildEngine.Glob

variable {c : Char} {cs front : List Char} {ts : List GlobToken}

/-- Behind the answer for a whole text stand the answers for its tail, for one piece. -/
theorem tokenRow_cons (t : GlobToken) (c : Char) (cs : List Char) (b : Bool) (rest : List Bool) :
    ∃ b', tokenRow t (c :: cs) (b :: rest) = b' :: tokenRow t cs rest := by
  cases t <;> exact ⟨_, rfl⟩

/-- Behind the answer for a whole text stand the answers for its tail. -/
theorem row_cons (ts : List GlobToken) (c : Char) (cs : List Char) :
    ∃ b, row ts (c :: cs) = b :: row ts cs := by
  induction ts with
  | nil => exact ⟨false, rfl⟩
  | cons t ts ih =>
    obtain ⟨b, hb⟩ := ih
    obtain ⟨b', hb'⟩ := tokenRow_cons t c cs b (row ts cs)
    refine ⟨b', ?_⟩
    calc
      row (t :: ts) (c :: cs) = tokenRow t (c :: cs) (row ts (c :: cs)) := rfl
      _ = tokenRow t (c :: cs) (b :: row ts cs) := by rw [hb]
      _ = b' :: row (t :: ts) cs := hb'

/-- A character of the pattern matches itself, in front of what the other pieces match. -/
theorem tokensMatch_literal_iff :
    tokensMatch (.literal c :: ts) cs = true ↔
      ∃ rest, cs = c :: rest ∧ tokensMatch ts rest = true := by
  -- The row of the rest decides behind the first character.
  cases cs with
  | nil => simp [tokensMatch, row, tokenRow, consuming]
  | cons d cs =>
    obtain ⟨b, hb⟩ := row_cons ts d cs
    have hrow : row (.literal c :: ts) (d :: cs) =
        tokenRow (.literal c) (d :: cs) (b :: row ts cs) := by
      rw [← hb]
      rfl
    simp only [tokensMatch, hrow, tokenRow, consuming, List.headD_cons, Bool.and_eq_true,
      decide_eq_true_eq, List.cons.injEq]
    constructor
    · rintro ⟨rfl, h⟩
      exact ⟨cs, ⟨rfl, rfl⟩, h⟩
    · rintro ⟨rest, ⟨rfl, rfl⟩, h⟩
      exact ⟨rfl, h⟩

/-- Characters in front of a pattern have to stand in front of the text. -/
theorem tokensMatch_literals_iff :
    tokensMatch (front.map .literal ++ ts) cs = true ↔
      ∃ rest, cs = front ++ rest ∧ tokensMatch ts rest = true := by
  induction front generalizing cs with
  | nil => simp
  | cons c front ih =>
    rw [List.map_cons, List.cons_append, tokensMatch_literal_iff]
    constructor
    · rintro ⟨tail, rfl, htail⟩
      obtain ⟨rest, rfl, hrest⟩ := ih.1 htail
      exact ⟨rest, rfl, hrest⟩
    · rintro ⟨rest, rfl, h⟩
      exact ⟨front ++ rest, rfl, ih.2 ⟨rest, rfl, h⟩⟩

/-- A character that is no wildcard is a piece of its own. -/
theorem tokens_cons (hstar : c ≠ '*') (hany : c ≠ '?') (cs : List Char) :
    tokens (c :: cs) = .literal c :: tokens cs := by
  rw [tokens] <;> simp [hstar, hany]

/-- Text without wildcards in front of a pattern stands for itself. -/
theorem tokens_append (h : hasWildcard front = false) (cs : List Char) :
    tokens (front ++ cs) = front.map .literal ++ tokens cs := by
  induction front with
  | nil => rfl
  | cons c front ih =>
    simp only [hasWildcard, List.any_cons, Bool.or_eq_false_iff, decide_eq_false_iff_not] at h
    rw [List.cons_append, tokens_cons h.1.1 h.1.2, ih h.2]
    rfl

end BuildEngine.Glob
