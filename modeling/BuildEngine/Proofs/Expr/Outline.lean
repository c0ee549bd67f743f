import BuildEngine.Proofs.Expr.NormalForm

/-!
# Outlines of templates

The outline of an expression is what it puts into a template: its characters, with a gap in place of
whatever is not text. Normalizing joins texts that stood apart, but it changes no outline
(`outline_normalize`), so what holds of the characters of a template holds of the texts that they
are joined to. An outline is free if its characters can stand in quotes and stay text: there is no
quote among them, and no sigil that a bracket touches (`IsFree`).
-/

namespace BuildEngine.Expr

variable {e : Expr} {parts : List Expr} {s : String} {o p : List (Option Char)}

/-! ## Outlines -/

mutual

/-- The characters that an expression puts into a template, and a gap for what is not text. -/
def outline : Expr → List (Option Char)
  | .literal s | .quoted s => s.toList.map some
  | .concat parts => outlineAll parts
  | _ => [none]

/-- The outlines of expressions, one behind the other. -/
def outlineAll : List Expr → List (Option Char)
  | [] => []
  | e :: es => outline e ++ outlineAll es

end

/-- Outlines come in the order of the expressions. -/
theorem outlineAll_append (es fs : List Expr) :
    outlineAll (es ++ fs) = outlineAll es ++ outlineAll fs := by
  induction es with
  | nil => rfl
  | cons e es ih => rw [List.cons_append, outlineAll, outlineAll, ih, List.append_assoc]

/-- The outline of a text are its characters. -/
theorem outline_of_plainText? (h : e.plainText? = some s) : outline e = s.toList.map some := by
  rcases plainText?_eq_some_iff.1 h with rfl | rfl <;> rw [outline]

/-- A text that is joined to what follows has the outline that it had by itself. -/
theorem outlineAll_consText (s : String) (parts : List Expr) :
    outlineAll (consText s parts) = s.toList.map some ++ outlineAll parts := by
  unfold consText
  split
  · rw [outlineAll, outlineAll, outline, outline, String.toList_append, List.map_append,
      List.append_assoc]
  · rw [outlineAll, outline]

/-- Joining texts changes no outline. -/
theorem outlineAll_fuse (parts : List Expr) : outlineAll (fuse parts) = outlineAll parts := by
  induction parts with
  | nil => rfl
  | cons part parts ih =>
    unfold fuse
    split
    · next s hs => rw [outlineAll_consText, ih, outlineAll, outline_of_plainText? hs]
    · rw [outlineAll, outlineAll, ih]

/-- The outline of one expression is its outline. -/
theorem outlineAll_singleton (e : Expr) : outlineAll [e] = outline e := by
  rw [outlineAll, outlineAll, List.append_nil]

/-- What a concatenation is normalized to has the outline of the parts. -/
theorem outline_ofParts (parts : List Expr) : outline (ofParts parts) = outlineAll parts := by
  unfold ofParts
  split
  · rfl
  · rw [outlineAll_singleton]
  · rw [outlineAll_singleton]
  · rw [outline]

/-- The parts of a concatenation have its outline. -/
theorem outlineAll_spliceParts (e : Expr) : outlineAll (spliceParts e) = outline e := by
  unfold spliceParts
  split
  · rw [outline]
  · rw [outlineAll_singleton]

mutual

/-- An expression and its normal form put the same characters into a template. -/
theorem outline_normalize : ∀ e : Expr, outline (normalize e) = outline e
  | .literal _ | .quoted _ | .property _ | .metadata _ | .items _ => rfl
  | .projection .. | .list _ | .not _ | .binary .. | .call .. => rfl
  | .concat parts => by
    rw [normalize, outline_ofParts, outlineAll_fuse, outlineAll_normalizeParts parts, outline]

/-- Normalizing parts changes no outline. -/
theorem outlineAll_normalizeParts :
    ∀ parts : List Expr, outlineAll (normalizeParts parts) = outlineAll parts
  | [] => rfl
  | part :: parts => by
    rw [normalizeParts, outlineAll_append, outlineAll_spliceParts, outline_normalize part,
      outlineAll_normalizeParts parts, outlineAll]

end

/-- A part stands in the outline of the parts. -/
theorem outline_within (h : e ∈ parts) : outline e <:+: outlineAll parts := by
  obtain ⟨before, after, rfl⟩ := List.append_of_mem h
  refine ⟨outlineAll before, outlineAll after, ?_⟩
  rw [outlineAll_append, outlineAll, List.append_assoc]

/-! ## Outlines that can be quoted -/

/-- Two characters are no opening of a reference. -/
def Apart (a b : Option Char) : Prop :=
  a ∈ [some '$', some '%', some '@'] → b ≠ some '('

/-- An outline with no quote and with no opening of a reference. -/
structure IsFree (o : List (Option Char)) : Prop where
  not_quote : some '\'' ∉ o
  apart : o.IsChain Apart

/-- There is nothing to open in nothing. -/
theorem isFree_nil : IsFree [] :=
  ⟨nofun, .nil⟩

/-- Less of a free outline is free. -/
theorem IsFree.mono (h : IsFree p) (hop : o <:+: p) : IsFree o :=
  ⟨fun hmem => h.not_quote (hop.subset hmem), h.apart.infix hop⟩

/-- No opening arises in front of a gap or behind one. -/
theorem isFree_gap (ho : IsFree o) (hp : IsFree p) : IsFree (o ++ none :: p) := by
  refine ⟨?_, List.isChain_append.2 ⟨ho.apart, List.isChain_cons.2 ⟨?_, hp.apart⟩, ?_⟩⟩
  · rw [List.mem_append, List.mem_cons, not_or, not_or]
    exact ⟨ho.not_quote, nofun, hp.not_quote⟩
  -- A gap is no sigil and no bracket.
  · intro b _ hsigil
    simp at hsigil
  · rintro a - _ ⟨⟩ _
    exact nofun

/-- Without an opening bracket nothing is opened. -/
theorem isChain_apart_of_not_mem (h : some '(' ∉ p) : p.IsChain Apart := by
  induction p with
  | nil => exact .nil
  | cons a p ih =>
    rw [List.mem_cons, not_or] at h
    exact List.isChain_cons.2
      ⟨fun b hb _ heq => h.2 (heq ▸ List.mem_of_mem_head? hb), ih h.2⟩

/-- No opening arises where there is no bracket. -/
theorem isFree_append (ho : IsFree o) (hquote : some '\'' ∉ p) (hbracket : some '(' ∉ p) :
    IsFree (o ++ p) := by
  refine ⟨?_, List.isChain_append.2 ⟨ho.apart, isChain_apart_of_not_mem hbracket, ?_⟩⟩
  · rw [List.mem_append, not_or]
    exact ⟨ho.not_quote, hquote⟩
  · exact fun a _ b hb _ heq => hbracket (heq ▸ List.mem_of_mem_head? hb)

end BuildEngine.Expr
