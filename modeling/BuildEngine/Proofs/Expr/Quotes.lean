import BuildEngine.Proofs.Expr.Completeness

/-!
# Quotes that open and close

Outside of references every quote opens a quoted text or closes one (`Balanced`). Inside of a quoted
text only a projection opens another one, so a quote opens either where all those in front are
balanced or behind the arrow of a projection (`Opens`). A quote that opens is never closed if all
that follows it is quoted text (`Unclosed`).
-/

namespace BuildEngine.Grammar

variable {ts us rs : List Token} {e : Expr} {parts : List Expr} {k : TokenKind} {s n : String}

/-- Every quote belongs to a quoted text, together with the one that closes it. -/
inductive Balanced : List Token → Prop
  | nil : Balanced []
  | token {ts : List Token} {t : Token} : Balanced ts → t.kind ≠ .quote → Balanced (ts ++ [t])
  | quoted {ts us : List Token} {parts : List Expr} {q c : String} : Balanced ts →
    Template .quote us parts → Balanced (ts ++ ⟨.quote, q⟩ :: (us ++ [⟨.quote, c⟩]))

/-- A quote that follows these tokens begins a quoted text. -/
inductive Opens : List Token → Prop
  | outside {ts : List Token} : Balanced ts → Opens ts
  /-- In the quoted text `us` stands a projection as far as its arrow. -/
  | inside {ts us ns as b : List Token} {parts : List Expr} {q s o n a : String} : Opens ts →
    Template .quote us parts → Name ns n → Spaced .arrow as a → Blanks b →
    Opens (ts ++ ⟨.quote, q⟩ :: (us ++ ⟨.at, s⟩ :: ⟨.openBracket, o⟩ :: (ns ++ as ++ b)))

/-- All that follows a quote is quoted, and none of it closes the quote. -/
structure Unclosed (us : List Token) : Prop where
  quoted : ∃ parts, Template .quote us parts
  not_closed : ∀ vs c ws parts, us = vs ++ ⟨.quote, c⟩ :: ws → ¬ Template .quote vs parts

/-- Blanks are of no other kind. -/
theorem kind_ne_of_blanks (h : Blanks ts) (hk : k ≠ .blank) : ∀ t ∈ ts, t.kind ≠ k :=
  fun t ht htk => hk (htk.symm.trans (h t ht))

/-- A token with blanks in front of it brings no other kinds. -/
theorem kind_ne_of_spaced {k' : TokenKind} (h : Spaced k ts s) (hk : k ≠ k')
    (hblank : k' ≠ .blank) : ∀ t ∈ ts, t.kind ≠ k' := by
  obtain ⟨hb⟩ := h
  rw [List.forall_mem_append]
  exact ⟨kind_ne_of_blanks hb hblank, List.forall_mem_singleton.2 hk⟩

/-- A name has no quotes. -/
theorem kind_ne_of_name (h : Name ts n) : ∀ t ∈ ts, t.kind ≠ .quote := by
  obtain ⟨hk, hts⟩ := h
  refine kind_ne_of_spaced hts ?_ (by decide)
  rintro rfl
  simp at hk

/-- The last token of a name, an arrow or a bracket is not the blank in front of it. -/
theorem getLast?_of_spaced (h : Spaced k ts s) : ts.getLast? = some ⟨k, s⟩ := by
  obtain ⟨hb⟩ := h
  exact List.getLast?_concat

/-- Quotes stay balanced when tokens without quotes follow. -/
theorem Balanced.append (h : Balanced ts) (hus : ∀ t ∈ us, t.kind ≠ .quote) :
    Balanced (ts ++ us) := by
  induction us generalizing ts with
  | nil => rwa [List.append_nil]
  | cons u us ih =>
    rw [List.forall_mem_cons] at hus
    rw [List.append_cons]
    exact ih (h.token hus.1) hus.2

/-- A reference is balanced, as a projection closes what it opens. -/
theorem Balanced.reference (h : Balanced ts) (hrs : Reference rs e) : Balanced (ts ++ rs) := by
  cases hrs with
  | property hns hcs | metadata hns hcs | items hns hcs =>
    refine h.append ?_
    simp only [List.forall_mem_cons, List.forall_mem_append]
    exact ⟨by decide, by decide, kind_ne_of_name hns,
      kind_ne_of_spaced hcs (by decide) (by decide)⟩
  -- A projection opens a quote and closes it again.
  | @projection s o n a q c b ns as qs us cs parts hns has hqs hus hcs =>
    obtain ⟨hb⟩ := hqs
    rename_i b
    have hopens : Balanced (ts ++ ⟨.at, s⟩ :: ⟨.openBracket, o⟩ :: (ns ++ as ++ b)) := by
      refine h.append ?_
      simp only [List.forall_mem_cons, List.forall_mem_append]
      exact ⟨by decide, by decide,
        ⟨kind_ne_of_name hns, kind_ne_of_spaced has (by decide) (by decide)⟩,
        kind_ne_of_blanks hb (by decide)⟩
    have hcloses := (hopens.quoted (q := q) (c := c) hus).append
      (kind_ne_of_spaced hcs (by decide) (by decide))
    simpa only [List.append_assoc, List.cons_append, List.nil_append] using hcloses

/-- What is quoted to the end has no token that closes the quote. -/
theorem unclosed_of_template (h : Template .quote us parts) : Unclosed us := by
  refine ⟨⟨parts, h⟩, ?_⟩
  rintro vs c ws parts' rfl h'
  -- The text is read up to its end, and no reader comes to two ends.
  have hno : ¬ IsSigil .quote := by simp [IsSigil]
  obtain ⟨rest, hreads, hrest⟩ := Expr.template_complete h hno (by decide)
    ((Expr.tokens_zipIdx _).trans (List.append_nil _).symm) (by rintro _ ⟨⟩)
  have hclose : ∀ t ∈ (⟨.quote, c⟩ :: ws : List Token).head?, t.kind = .quote := by
    rintro t ⟨⟩
    rfl
  obtain ⟨rest', hreads', hrest'⟩ := Expr.template_complete h' hno (by decide)
    (Expr.tokens_zipIdx _) hclose
  obtain ⟨-, rfl⟩ := hreads.unique hreads'
  rw [hrest] at hrest'
  cases hrest'

end BuildEngine.Grammar
