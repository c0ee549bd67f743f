import BuildEngine.Expr.Printer
import BuildEngine.Proofs.Expr.Spelling

/-!
# Written references and templates

The written form of a reference spells the reference, and what is written in quotes for the pieces
of a template spells the template (`reference_render`, `template_renderParts`). The tokens of a
written form are put together from those of its parts, because it begins and ends with characters
that keep them apart from what stands around it (`head_render`, `isTrimmed_render`).
-/

namespace BuildEngine.Expr

open Grammar

variable {e f : Expr} {parts : List Expr} {n s : String} {stop : TokenKind} {ts us : List Token}

/-! ## Written templates -/

/-- A part that is no text is written by itself. -/
theorem renderParts_cons (h : e.plainText? = none) (parts : List Expr) :
    renderParts (e :: parts) = render e ++ renderParts parts := by
  cases e with
  | literal | quoted => cases h
  | _ => rw [renderParts] <;> rintro _ ⟨⟩

/-- Text in front of a template that does not begin with text. -/
theorem template_texts (h : Template stop us parts) (hts : Plain stop ts)
    (hus : ∀ u ∈ us.head?, u.kind ≠ .openBracket) (hparts : ∀ s, parts.head? ≠ some (.quoted s)) :
    Template stop (ts ++ us) (textPart ts ++ parts) := by
  -- On the texts, from the last to the first: each joins the plain part behind it.
  induction ts with
  | nil => exact h
  | cons t ts ih =>
    obtain ⟨hstop, hchain⟩ := hts
    rw [List.forall_mem_cons] at hstop
    rw [List.isChain_cons] at hchain
    rw [← consTemplateText_textPart t ts hparts, List.cons_append]
    refine template_cons (ih ⟨hstop.2, hchain.2⟩) hstop.1 fun hsigil u hu => ?_
    cases ts with
    | nil => exact hus u hu
    | cons v ts => exact hchain.1 u hu hsigil

/-- A text that opens nothing holds no reference. -/
theorem isReferenceFree_of_isFree (h : IsFree (s.toList.map some)) : IsReferenceFree s := by
  intro opening hopening hwithin
  -- An opening in the text is one in the outline, where no bracket touches a sigil.
  have hchain := h.apart.infix (List.IsInfix.map some hwithin)
  simp only [openings, List.mem_cons, List.not_mem_nil, or_false] at hopening
  rcases hopening with rfl | rfl | rfl <;> simp [Apart] at hchain

/-- The tokens of a text that opens nothing are plain. -/
theorem plain_of_isFree (h : IsFree (s.toList.map some)) : Plain .quote (Token.ofText s) := by
  have hquote : '\'' ∉ s.toList := fun hmem => h.not_quote (List.mem_map_of_mem hmem)
  exact ⟨fun t => ne_quote_of_mem_ofText hquote,
    isChain_of_cut (Token.cut_iff.2 rfl) (isReferenceFree_of_isFree h)⟩

/-- The tokens of a text make one part, unless it is empty. -/
theorem textPart_ofText (hs : s ≠ "") : textPart (Token.ofText s) = [.quoted s] := by
  unfold textPart
  rw [join_ofText, if_neg hs]

/-- The empty text has no tokens. -/
theorem ofText_empty : Token.ofText "" = [] := by
  rw [Token.ofText, String.toList_empty, Token.ofChars]

/-! ## Written references -/

/-- The characters of a reference: a sigil, and what stands in brackets behind it. -/
def bracketed (sigil : Char) (body : List Char) : List Char :=
  sigil :: '(' :: (body ++ [')'])

/-- A sigil and brackets are cut off what they stand around. -/
theorem ofChars_bracketed {c : Char} {k : TokenKind} (hc : Token.delimiter? c = some k)
    (body : List Char) :
    Token.ofChars (bracketed c body) =
      ⟨k, String.singleton c⟩ :: ⟨.openBracket, "("⟩ ::
        (Token.ofChars body ++ [⟨.closeBracket, ")"⟩]) := by
  rw [bracketed, Token.ofChars_cons_delimiter hc,
    Token.ofChars_cons_delimiter (k := .openBracket) rfl,
    Token.ofChars_append_delimiter (k := .closeBracket) rfl, Token.ofChars]
  rfl

/-- A reference ends with its bracket. -/
theorem getLast?_bracketed (c : Char) (body : List Char) :
    (bracketed c body).getLast? = some ')' := by
  rw [bracketed, ← List.cons_append, ← List.cons_append, List.getLast?_concat]

/-- How a property reference is written. -/
theorem toList_render_property (n : String) :
    (render (.property n)).toList = bracketed '$' n.toList := by
  show ("$(" ++ n ++ ")").toList = _
  simp [bracketed]

/-- How a metadata reference is written. -/
theorem toList_render_metadata (n : String) :
    (render (.metadata n)).toList = bracketed '%' n.toList := by
  show ("%(" ++ n ++ ")").toList = _
  simp [bracketed]

/-- How a reference to items is written. -/
theorem toList_render_items (n : String) :
    (render (.items n)).toList = bracketed '@' n.toList := by
  show ("@(" ++ n ++ ")").toList = _
  simp [bracketed]

/-- What stands in the brackets of a written projection. -/
def projectionBody (n : String) (parts : List Expr) : List Char :=
  n.toList ++ ' ' :: (['-', '>'] ++ ' ' :: '\'' :: ((renderParts parts).toList ++ ['\'']))

/-- How a projection is written. -/
theorem toList_render_projection (n : String) (parts : List Expr) :
    (render (.projection n parts)).toList = bracketed '@' (projectionBody n parts) := by
  simp [render_projection, bracketed, projectionBody]

/-- Every written reference is a sigil with brackets behind it. -/
theorem exists_bracketed (h : IsPiece e) (htext : e.plainText? = none) :
    ∃ c k body, Token.delimiter? c = some k ∧ IsSigil k ∧
      (render e).toList = bracketed c body := by
  cases h with
  | text => cases htext
  | property => exact ⟨_, _, _, rfl, .inl rfl, toList_render_property _⟩
  | metadata => exact ⟨_, _, _, rfl, .inr (.inl rfl), toList_render_metadata _⟩
  | items => exact ⟨_, _, _, rfl, .inr (.inr rfl), toList_render_items _⟩
  | projection => exact ⟨_, _, _, rfl, .inr (.inr rfl), toList_render_projection _ _⟩

/-- A name holds no blank. -/
theorem not_isBlank_of_isName (h : IsName n) : ∀ c ∈ n.toList, Text.isBlank c = false := by
  obtain ⟨k, hk, htokens⟩ := h.exists_kind
  obtain ⟨rest, hleads⟩ := leads_of_mem_ofText (s := n) (htokens ▸ List.mem_cons_self)
  exact (hleads.of_isWord hk).1.not_isBlank

/-- The name, the arrow and the quotes of a projection are cut off its parts. -/
theorem ofChars_projectionBody (hn : IsName n) (parts : List Expr) :
    Token.ofChars (projectionBody n parts) =
      Token.ofText n ++ [⟨.blank, " "⟩, ⟨.arrow, "->"⟩] ++ [⟨.blank, " "⟩, ⟨.quote, "'"⟩] ++
        Token.ofText (renderParts parts) ++ [⟨.quote, "'"⟩] := by
  have harrow : Token.ofChars ['-', '>'] = [⟨.arrow, "->"⟩] := by decide +kernel
  have hname : ∀ c ∈ n.toList.getLast?, Text.isBlank c = false :=
    fun c hc => not_isBlank_of_isName hn c (List.mem_of_getLast? hc)
  -- The arrow stands between two spaces and the quotes are delimiters, so nothing grows together.
  rw [projectionBody, Token.ofChars_append_space hname (by rintro _ ⟨⟩; rfl),
    Token.ofChars_append_space (by rintro _ ⟨⟩; rfl) (by rintro _ ⟨⟩; rfl), harrow,
    Token.ofChars_cons_delimiter (k := .quote) rfl,
    Token.ofChars_append_delimiter (k := .quote) rfl, Token.ofChars]
  simp only [Token.ofText, List.append_assoc, List.cons_append, List.nil_append]
  rfl

/-- Written pieces that do not begin with text begin with a sigil, and no token grows into them. -/
theorem separated_renderParts (h : ∀ e ∈ parts, IsPiece e)
    (hhead : ∀ f ∈ parts.head?, f.plainText? = none) :
    Token.Separated (renderParts parts).toList ∧
      (∀ c ∈ (renderParts parts).toList.head?, Text.isBlank c = false) ∧
        ∀ u ∈ (Token.ofText (renderParts parts)).head?, u.kind ≠ .openBracket := by
  -- A template starts with a reference here, as its first part is no plain text.
  cases parts with
  | nil =>
    rw [renderParts, ofText_empty]
    exact ⟨by simp [Token.Separated], by simp, by simp⟩
  | cons e parts =>
    obtain ⟨c, k, body, hc, hk, hchars⟩ := exists_bracketed (h e List.mem_cons_self) (hhead e rfl)
    rw [renderParts_cons (hhead e rfl), Token.ofText, String.toList_append, hchars, bracketed,
      List.cons_append, Token.ofChars_cons_delimiter hc]
    refine ⟨Token.separated_delimiter hc _, ?_, ?_⟩
    · rintro _ ⟨⟩
      exact Token.not_isBlank_of_delimiter? hc
    · rintro _ ⟨⟩
      exact ne_openBracket_of_isSigil hk

/-- Written pieces spell a template if the references among them are spelled. -/
theorem template_renderParts (h : ∀ e ∈ parts, IsPiece e) (hjoined : Joined parts)
    (hreference : ∀ e ∈ parts, e.plainText? = none → Reference (Token.ofText (render e)) e) :
    Template .quote (Token.ofText (renderParts parts)) parts := by
  induction parts with
  | nil =>
    rw [renderParts, ofText_empty]
    exact template_nil _
  | cons e parts ih =>
    rw [List.forall_mem_cons] at hreference
    obtain ⟨-, hapart, hjoined⟩ := joined_cons_iff.1 hjoined
    have hparts := fun f hf => h f (List.mem_cons_of_mem e hf)
    have ih := ih hparts hjoined hreference.2
    cases htext : e.plainText? with
    | none =>
      -- A bracket ends the reference, so its tokens are those of its own text.
      obtain ⟨c, k, body, -, -, hchars⟩ := exists_bracketed (h e List.mem_cons_self) htext
      have hlast : ∀ c ∈ (render e).toList.getLast?, (Token.delimiter? c).isSome = true := by
        rw [hchars, getLast?_bracketed]
        rintro _ ⟨⟩
        rfl
      rw [renderParts_cons htext, Token.ofText, String.toList_append,
        Token.ofChars_append_of_getLast? hlast]
      exact template_reference (hreference.1 htext) ih
    | some s =>
      -- No text follows the text, so what follows begins with a sigil, if there is anything.
      have hhead : ∀ f ∈ parts.head?, f.plainText? = none := by
        intro f hf
        have hor := hapart f hf
        rw [htext] at hor
        exact hor.resolve_left (by simp)
      obtain ⟨hseparated, hblank, hbracket⟩ := separated_renderParts hparts hhead
      cases h e List.mem_cons_self with
      | @text s hne hfree =>
        rw [renderParts_quoted, Token.ofText, String.toList_append,
          Token.ofChars_append hseparated (.inr hblank)]
        have htemplate := template_texts ih (plain_of_isFree hfree) hbracket fun t ht => by
          cases hhead _ ht
        rwa [textPart_ofText hne] at htemplate
      | property | metadata | items | projection => cases htext

/-- A space is blank. -/
theorem blanks_space : Blanks [⟨.blank, " "⟩] := by
  simp [Blanks]

/-- A token behind a space. -/
theorem spaced_space (k : TokenKind) (s : String) : Spaced k [⟨.blank, " "⟩, ⟨k, s⟩] s :=
  .mk blanks_space

/-- A written reference spells the reference. -/
theorem reference_render (h : IsPiece e) (htext : e.plainText? = none) :
    Reference (Token.ofText (render e)) e := by
  have hclose := spaced_singleton .closeBracket ")"
  -- By the kind of piece. A projection is the only one with parts, and `ih` is about these.
  induction h with
  | text => cases htext
  | @property n hn =>
    rw [Token.ofText, toList_render_property, ofChars_bracketed rfl]
    exact .property (name_of_isName hn) hclose
  | @metadata n hn =>
    rw [Token.ofText, toList_render_metadata, ofChars_bracketed rfl]
    exact .metadata (name_of_isName hn) hclose
  | @items n hn =>
    rw [Token.ofText, toList_render_items, ofChars_bracketed rfl]
    exact .items (name_of_isName hn) hclose
  | @projection n parts hn hparts hjoined ih =>
    have htemplate := template_renderParts hparts hjoined ih
    have hreference : Reference
        (⟨.at, String.singleton '@'⟩ :: ⟨.openBracket, "("⟩ ::
          (Token.ofText n ++ [⟨.blank, " "⟩, ⟨.arrow, "->"⟩] ++ [⟨.blank, " "⟩, ⟨.quote, "'"⟩] ++
            Token.ofText (renderParts parts) ++ ⟨.quote, "'"⟩ :: [⟨.closeBracket, ")"⟩]))
        (.projection n parts) :=
      .projection (name_of_isName hn) (spaced_space _ _) (spaced_space _ _) htemplate hclose
    rw [Token.ofText, toList_render_projection, ofChars_bracketed rfl, ofChars_projectionBody hn]
    simpa only [List.append_assoc, List.cons_append, List.nil_append] using hreference

/-! ## Ends of written forms -/

/-- What a written form that is no literal begins with. -/
def beginnings : List Char :=
  ['\'', '$', '%', '@', '!', '(', 'E', 'H']

/-- What a written form begins with is neither blank nor an equals sign. -/
theorem of_mem_beginnings {c : Char} (h : c ∈ beginnings) :
    Text.isBlank c = false ∧ c ≠ '=' := by
  have hall : beginnings.all (fun c => !Text.isBlank c && c != '=') = true := by decide
  simpa using List.all_eq_true.1 hall c h

/-- What stands in a template begins with one of the beginnings when it is written. -/
theorem head_render_of_isPiece (h : IsPiece e) :
    ∃ c ∈ beginnings, (render e).toList.head? = some c := by
  cases h with
  | text => exact ⟨'\'', by decide, by simp [render]⟩
  | property => exact ⟨'$', by decide, by simp [render]⟩
  | metadata => exact ⟨'%', by decide, by simp [render]⟩
  | items => exact ⟨'@', by decide, by simp [render]⟩
  | projection => exact ⟨'@', by decide, by simp [render]⟩

/-- A written form that is no literal begins with a character that no token in front of it takes. -/
theorem head_render (h : Spelled e) (hliteral : ∀ s, e ≠ .literal s) :
    ∃ c ∈ beginnings, (render e).toList.head? = some c := by
  cases h with
  | literal => exact absurd rfl (hliteral _)
  | text => exact ⟨'\'', by decide, by simp [render]⟩
  | piece hpiece => exact head_render_of_isPiece hpiece
  | concat => exact ⟨'\'', by decide, by simp [render]⟩
  | not => exact ⟨'!', by decide, by simp [render]⟩
  | binary => exact ⟨'(', by decide, by simp [render]⟩
  | @call f =>
    cases f with
    | pathExists => exact ⟨'E', by decide, by simp [render, Builtin.name]⟩
    | hasTrailingSlash => exact ⟨'H', by decide, by simp [render, Builtin.name]⟩

/-- A word holds no blank. -/
theorem not_isBlank_of_literal (h : Token.ofText s = [⟨.word, s⟩]) :
    ∀ c ∈ s.toList, Text.isBlank c = false :=
  not_isBlank_of_isName ⟨_, h, .inl rfl⟩

/-- A text with a quote behind it ends with the quote. -/
theorem getLast?_quote (s : String) : (s ++ "'").toList.getLast? = some '\'' := by
  simp

/-- A text with a bracket behind it ends with the bracket. -/
theorem getLast?_bracket (s : String) : (s ++ ")").toList.getLast? = some ')' := by
  simp

/-- What stands in a template does not end with a blank when it is written. -/
theorem getLast_render_of_isPiece (h : IsPiece e) :
    ∀ c ∈ (render e).toList.getLast?, Text.isBlank c = false := by
  -- A reference ends in its bracket and a text in its quote.
  cases htext : e.plainText? with
  | none =>
    obtain ⟨c, k, body, -, -, hchars⟩ := exists_bracketed h htext
    rw [hchars, getLast?_bracketed]
    rintro _ ⟨⟩
    rfl
  | some s =>
    cases h with
    | text =>
      rw [render, getLast?_quote]
      rintro _ ⟨⟩
      rfl
    | property | metadata | items | projection => cases htext

/-- No written form ends with a blank character. -/
theorem getLast_render (h : Spelled e) :
    ∀ c ∈ (render e).toList.getLast?, Text.isBlank c = false := by
  -- Only behind `!` does the operand come last; all else ends in a quote or bracket, or is a name.
  induction h with
  | literal hs =>
    rw [render]
    exact fun c hc => not_isBlank_of_literal hs c (List.mem_of_getLast? hc)
  | piece hpiece => exact getLast_render_of_isPiece hpiece
  | text | concat =>
    rw [render, getLast?_quote]
    rintro _ ⟨⟩
    rfl
  | binary | call =>
    rw [render, getLast?_bracket]
    rintro _ ⟨⟩
    rfl
  | @not e _ ih =>
    intro c hc
    rw [render, String.toList_append, List.getLast?_append] at hc
    cases hlast : (render e).toList.getLast? with
    | none =>
      rw [hlast] at hc
      cases hc
      rfl
    | some d =>
      rw [hlast] at hc
      cases hc
      exact ih _ hlast

/-- A written form touches what stands around it with characters that are not blank. -/
theorem isTrimmed_render (h : Spelled e) : Text.IsTrimmed (render e).toList := by
  refine ⟨fun c hc => ?_, getLast_render h⟩
  -- A literal begins with a character of its word, everything else with one of `beginnings`.
  by_cases hliteral : ∃ s, e = .literal s
  · obtain ⟨s, rfl⟩ := hliteral
    cases h with
    | literal hs =>
      rw [render] at hc
      exact not_isBlank_of_literal hs c (List.mem_of_mem_head? hc)
    | piece hpiece => cases hpiece
  · obtain ⟨d, hd, hhead⟩ := head_render h fun s hs => hliteral ⟨s, hs⟩
    rw [hhead] at hc
    cases hc
    exact (of_mem_beginnings hd).1

end BuildEngine.Expr
