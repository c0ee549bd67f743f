import BuildEngine.Proofs.Expr.Outline
import BuildEngine.Proofs.Expr.Templates

/-!
# Expressions that texts spell

Not every expression is what some text is read as, and the ones that are not need not have a written
form that is read back. `Spelled` says what is kept of the tokens that an expression was read from:
names and literals are words, and the outline of a template is free. What is read is spelled
(`spelled_of_condition`), and so is its normal form (`Spelled.normalize`).
-/

namespace BuildEngine.Expr

open Grammar

variable {e f : Expr} {parts es : List Expr} {n s : String} {t u : Token} {ts us : List Token}

/-! ## What a template is made of -/

/-- What stands in a template: text that is not empty, and references. -/
inductive IsPiece : Expr → Prop
  | text {s : String} : s ≠ "" → IsFree (s.toList.map some) → IsPiece (.quoted s)
  | property {n : String} : IsName n → IsPiece (.property n)
  | metadata {n : String} : IsName n → IsPiece (.metadata n)
  | items {n : String} : IsName n → IsPiece (.items n)
  | projection {n : String} {parts : List Expr} :
    IsName n → (∀ e ∈ parts, IsPiece e) → Joined parts → IsPiece (.projection n parts)

/-- What stands in a template is normal. -/
theorem isNormal_of_isPiece (h : IsPiece e) : IsNormal e := by
  induction h with
  | text => exact .quoted _
  | property => exact .property _
  | metadata => exact .metadata _
  | items => exact .items _
  | projection _ _ hjoined ih => exact .projection ih hjoined

/-! ## Tokens that were cut off a text -/

/-- Tokens of which each was cut off some text. -/
def Lexed (ts : List Token) : Prop :=
  ∀ t ∈ ts, ∃ rest, Token.Leads t rest

/-- The tokens of a text were cut off it. -/
theorem lexed_ofText (s : String) : Lexed (Token.ofText s) :=
  fun _ => leads_of_mem_ofText

/-- Tokens were cut off some text if the first one was and the others were. -/
theorem lexed_cons_iff : Lexed (t :: ts) ↔ (∃ rest, Token.Leads t rest) ∧ Lexed ts :=
  List.forall_mem_cons

/-- Tokens were cut off some text if those in front were and those behind were. -/
theorem lexed_append_iff : Lexed (ts ++ us) ↔ Lexed ts ∧ Lexed us :=
  List.forall_mem_append

/-- A word that was cut off a text is the only token of its own text. -/
theorem ofText_of_isWord (ht : ∃ rest, Token.Leads t rest) (hk : t.kind.IsWord) :
    Token.ofText t.text = [t] := by
  obtain ⟨rest, hleads⟩ := ht
  obtain ⟨hunstopped, -⟩ := hleads.of_isWord hk
  have hword : t.kind = Token.wordKind t.text := by
    have hkind := hleads.kind_eq
    rw [hkind]
    exact Token.wordKind_of_isWord (hkind ▸ hk)
  -- Where the word does not stop with something behind it, it does not stop without it.
  have halone : Token.Unstopped t.text.toList [] := by
    rintro front back heq hne (⟨c, hc, hblank⟩ | ⟨symbol, hsymbol, hbegins⟩)
    · rw [List.append_nil] at hc
      refine hunstopped front back heq hne (.inl ⟨c, ?_, hblank⟩)
      rw [List.head?_append, Option.mem_def.1 hc]
      rfl
    · rw [List.append_nil] at hbegins
      exact hunstopped front back heq hne
        (.inr ⟨symbol, hsymbol, hbegins.trans (List.prefix_append back rest)⟩)
  have hleads : Token.Leads ⟨Token.wordKind t.text, t.text⟩ [] := by
    have h := Token.Leads.word hleads.text_ne_nil halone (.inl rfl)
    rwa [String.ofList_toList] at h
  have htokens := hleads.ofChars_append
  rwa [List.append_nil, ← hword, Token.ofChars] at htokens

/-- A token with blanks before it is one of the tokens. -/
theorem mem_of_spaced {k : TokenKind} (h : Spaced k ts s) : ⟨k, s⟩ ∈ ts := by
  obtain ⟨-⟩ := h
  exact List.mem_append_right _ List.mem_cons_self

/-- A name that was cut off a text is a token by itself. -/
theorem isName_of_name (h : Name ts n) (hts : Lexed ts) : IsName n := by
  obtain @⟨k, _, _, hk, hname⟩ := h
  have hword : k.IsWord := by simpa [TokenKind.IsWord] using hk
  exact ⟨_, ofText_of_isWord (hts _ (mem_of_spaced hname)) hword, hword⟩

/-- No word holds a delimiter. -/
theorem not_mem_of_isWord {c : Char} {k : TokenKind} (ht : ∃ rest, Token.Leads t rest)
    (hk : t.kind.IsWord) (hc : Token.delimiter? c = some k) : c ∉ t.text.toList := by
  intro hmem
  obtain ⟨rest, hleads⟩ := ht
  rw [hleads.eq_of_mem hc hmem] at hk
  unfold Token.delimiter? at hc
  split at hc <;> cases hc <;> revert hk <;> decide

/-- The characters that begin references are sigils. -/
theorem isSigil_of_mem {c : Char} (hc : some c ∈ [some '$', some '%', some '@']) :
    ∃ k, Token.delimiter? c = some k ∧ IsSigil k := by
  simp only [List.mem_cons, Option.some.injEq, List.not_mem_nil, or_false] at hc
  rcases hc with rfl | rfl | rfl
  · exact ⟨.dollar, rfl, .inl rfl⟩
  · exact ⟨.percent, rfl, .inr (.inl rfl)⟩
  · exact ⟨.at, rfl, .inr (.inr rfl)⟩

/-- No opening arises in the characters of tokens where no bracket touches a sigil. -/
theorem isChain_chars (hts : Lexed ts)
    (hchain : ts.IsChain fun t u => IsSigil t.kind → u.kind ≠ .openBracket) :
    ((Token.chars ts).map some).IsChain Apart := by
  induction ts with
  | nil => exact .nil
  | cons t ts ih =>
    rw [lexed_cons_iff] at hts
    rw [List.isChain_cons] at hchain
    obtain ⟨⟨rest, hleads⟩, htail⟩ := hts
    rw [Token.chars_cons, List.map_append, List.isChain_append]
    refine ⟨?_, ih htail hchain.2, ?_⟩
    -- A bracket is a token of its own, so there is none inside of a longer one.
    · by_cases hbracket : '(' ∈ t.text.toList
      · rw [hleads.eq_of_mem rfl hbracket]
        exact .singleton _
      · exact isChain_apart_of_not_mem (by simpa using hbracket)
    -- A sigil that a bracket follows is a token of its own as well, and the bracket the next.
    · intro a ha b hb hsigil hopen
      subst hopen
      obtain ⟨c, hc, rfl⟩ := List.mem_map.1 (List.mem_of_getLast? ha)
      obtain ⟨k, hk, hsigil⟩ := isSigil_of_mem hsigil
      cases ts with
      | nil => cases hb
      | cons u us =>
        obtain ⟨rest', hnext⟩ := htail u List.mem_cons_self
        have hmem : '(' ∈ u.text.toList := by
          rw [Token.chars_cons, List.map_append,
            List.head?_append_of_ne_nil _ (by simpa using hnext.text_ne_nil)] at hb
          simpa using List.mem_of_mem_head? hb
        refine hchain.1 u rfl ?_ (by rw [hnext.eq_of_mem rfl hmem])
        rwa [hleads.eq_of_mem hk hc]

/-- Plain tokens hold no quote and open no reference. -/
theorem isFree_chars (hts : Lexed ts) (hplain : Plain .quote ts) :
    IsFree ((Token.chars ts).map some) := by
  refine ⟨fun hmem => ?_, isChain_chars hts hplain.2⟩
  -- A quote among the characters would be one of the tokens.
  obtain ⟨c, hc, hquote⟩ := List.mem_map.1 hmem
  cases hquote
  obtain ⟨t, ht, hc⟩ := List.mem_flatMap.1 hc
  obtain ⟨rest, hleads⟩ := hts t ht
  exact hplain.1 t ht (by rw [hleads.eq_of_mem rfl hc])

/-! ## What templates spell -/

/-- The outline of text are its characters. -/
theorem outlineAll_textPart (ts : List Token) :
    outlineAll (textPart ts) = (Token.chars ts).map some := by
  unfold textPart
  dsimp only
  rw [← Token.toList_join]
  split
  · next hnil =>
    rw [hnil]
    rfl
  · rw [outlineAll_singleton, outline]

/-- The text of a template is a piece of it. -/
theorem isPiece_of_mem_textPart (hts : Lexed ts) (hplain : Plain .quote ts)
    (h : e ∈ textPart ts) : IsPiece e := by
  have hfree := isFree_chars hts hplain
  rw [← Token.toList_join] at hfree
  unfold textPart at h
  dsimp only at h
  split at h
  · cases h
  · next hne =>
    rw [List.mem_singleton] at h
    subst h
    exact .text hne hfree

/-- No reference is text. -/
theorem plainText?_of_reference (h : Reference ts e) : e.plainText? = none := by
  cases h <;> rfl

/-- A reference can stay as it is in a concatenation. -/
theorem isPart_of_reference (h : Reference ts e) : IsPart e := by
  cases h <;> exact ⟨nofun, nofun⟩

/-- The outline of a reference is a gap. -/
theorem outline_of_reference (h : Reference ts e) : outline e = [none] := by
  cases h <;> rw [outline] <;> exact nofun

/-- Text in front of parts that do not begin with text. -/
theorem joined_textPart_append (ts : List Token)
    (hhead : ∀ f ∈ parts.head?, f.plainText? = none) (h : Joined parts) :
    Joined (textPart ts ++ parts) := by
  unfold textPart
  dsimp only
  split
  · exact h
  · exact joined_cons_iff.2 ⟨isPart_quoted _, fun f hf => .inr (hhead f hf), h⟩

mutual

/-- A reference is a piece of a template. -/
theorem isPiece_of_reference :
    ∀ {ts : List Token} {e : Expr}, Reference ts e → Lexed ts → IsPiece e
  | _, _, .property hns _, hts => .property (isName_of_name hns fun t ht => hts t (by simp [ht]))
  | _, _, .metadata hns _, hts => .metadata (isName_of_name hns fun t ht => hts t (by simp [ht]))
  | _, _, .items hns _, hts => .items (isName_of_name hns fun t ht => hts t (by simp [ht]))
  | _, _, .projection hns _ _ hparts _, hts =>
    have h := isPiece_of_template hparts rfl fun t ht => hts t (by simp [ht])
    .projection (isName_of_name hns fun t ht => hts t (by simp [ht])) h.1 h.2

/-- A template in quotes is made of pieces, of which no two are texts side by side. -/
theorem isPiece_of_template :
    ∀ {stop : TokenKind} {ts : List Token} {parts : List Expr}, Template stop ts parts →
      stop = .quote → Lexed ts → (∀ e ∈ parts, IsPiece e) ∧ Joined parts
  | _, ts, _, .text hplain, rfl, hts => by
    have hjoined : Joined (textPart ts ++ []) := joined_textPart_append ts nofun ⟨nofun, .nil⟩
    rw [List.append_nil] at hjoined
    exact ⟨fun e => isPiece_of_mem_textPart hts hplain, hjoined⟩
  | _, _, _, @Template.reference _ ts _ _ e parts hplain hrs hus, rfl, hts => by
    rw [lexed_append_iff, lexed_append_iff] at hts
    have hreference := isPiece_of_reference hrs hts.1.2
    obtain ⟨hpieces, hjoined⟩ := isPiece_of_template hus rfl hts.2
    have htext := plainText?_of_reference hrs
    constructor
    -- The reference keeps the text in front of it apart from the text behind it.
    · intro f hf
      rcases List.mem_append.1 hf with hf | hf
      · exact isPiece_of_mem_textPart hts.1.1 hplain hf
      · exact List.forall_mem_cons.2 ⟨hreference, hpieces⟩ f hf
    · refine joined_textPart_append ts ?_
        (joined_cons_iff.2 ⟨isPart_of_reference hrs, fun _ _ => .inl htext, hjoined⟩)
      rintro f ⟨⟩
      exact htext

end

/-- What stands in quotes can be quoted again. -/
theorem isFree_of_template :
    ∀ {stop : TokenKind} {ts : List Token} {parts : List Expr}, Template stop ts parts →
      stop = .quote → Lexed ts → IsFree (outlineAll parts)
  | _, _, _, .text hplain, rfl, hts => by
    rw [outlineAll_textPart]
    exact isFree_chars hts hplain
  | _, _, _, .reference hplain hrs hus, rfl, hts => by
    rw [lexed_append_iff, lexed_append_iff] at hts
    rw [outlineAll_append, outlineAll, outlineAll_textPart, outline_of_reference hrs]
    exact isFree_gap (isFree_chars hts.1.1 hplain) (isFree_of_template hus rfl hts.2)

/-! ## What operations spell -/

/-- Expressions that operations spell, and their normal forms. -/
inductive Spelled : Expr → Prop
  | literal {s : String} : Token.ofText s = [⟨.word, s⟩] → Spelled (.literal s)
  | text {s : String} : IsFree (s.toList.map some) → Spelled (.quoted s)
  | piece {e : Expr} : IsPiece e → Spelled e
  | concat {parts : List Expr} :
    (∀ e ∈ parts, Spelled e) → IsFree (outlineAll parts) → Spelled (.concat parts)
  | not {e : Expr} : Spelled e → Spelled (.not e)
  | binary {op : BinaryOp} {l r : Expr} : Spelled l → Spelled r → Spelled (.binary op l r)
  | call {f : Builtin} {e : Expr} : Spelled e → Spelled (.call f e)

/-- What a concatenation that is spelled holds is spelled. -/
theorem Spelled.of_concat (h : Spelled (.concat parts)) : ∀ e ∈ parts, Spelled e := by
  cases h with
  | piece hpiece => cases hpiece
  | concat hparts => exact hparts

/-- The parts of what is spelled are spelled. -/
theorem spelled_of_mem_spliceParts (h : Spelled e) (hf : f ∈ spliceParts e) : Spelled f := by
  unfold spliceParts at hf
  split at hf
  · exact h.of_concat f hf
  · rw [List.mem_singleton] at hf
    rwa [hf]

/-- Normalized parts are spelled if the parts are in normal form. -/
theorem spelled_of_mem_normalizeParts (h : ∀ e ∈ parts, Spelled (normalize e))
    (hf : f ∈ normalizeParts parts) : Spelled f := by
  induction parts with
  | nil => cases hf
  | cons e parts ih =>
    rw [List.forall_mem_cons] at h
    rcases List.mem_append.1 hf with hf | hf
    · exact spelled_of_mem_spliceParts h.1 hf
    · exact ih h.2 hf

/-- The normal form of what is spelled is spelled. -/
theorem Spelled.normalize (h : Spelled e) : Spelled (normalize e) := by
  induction h with
  | literal hs => exact .literal hs
  | text hs => exact .text hs
  | piece hpiece =>
    rw [(isNormal_of_isPiece hpiece).normalize_eq]
    exact .piece hpiece
  | @concat parts _ hfree ih =>
    rw [Expr.normalize]
    have houtline : outlineAll (fuse (normalizeParts parts)) = outlineAll parts := by
      rw [outlineAll_fuse, outlineAll_normalizeParts]
    have hfree : IsFree (outlineAll (fuse (normalizeParts parts))) := houtline ▸ hfree
    have hparts : ∀ e ∈ fuse (normalizeParts parts), Spelled e := by
      intro e he
      rcases mem_fuse he with hmem | ⟨s, rfl⟩
      · exact spelled_of_mem_normalizeParts ih hmem
      · -- The text may have been joined from several, but it stands in the outline.
        have hwithin := outline_within he
        rw [outline] at hwithin
        exact .text (hfree.mono hwithin)
    -- A single text or property stands for itself, and is spelled as one of the parts.
    generalize fuse (normalizeParts parts) = parts at hfree hparts
    unfold ofParts
    split
    · exact .text isFree_nil
    · exact hparts _ List.mem_cons_self
    · exact hparts _ List.mem_cons_self
    · exact .concat hparts hfree
  | not _ ih => exact .not ih
  | binary _ _ ihl ihr => exact .binary ihl ihr
  | call _ ih => exact .call ih

/-- No delimiter stands in the outline of a literal. -/
theorem not_mem_outline_literal {c : Char} {k : TokenKind}
    (ht : ∃ rest, Token.Leads ⟨.word, s⟩ rest) (hc : Token.delimiter? c = some k) :
    some c ∉ outline (.literal s) := by
  rw [outline, List.mem_map]
  rintro ⟨d, hd, heq⟩
  cases heq
  exact not_mem_of_isWord ht (.inl rfl) hc hd

/-- A gap alone opens nothing. -/
theorem isFree_none : IsFree [none] :=
  isFree_gap isFree_nil isFree_nil

/-- A word opens nothing. -/
theorem isFree_outline_literal (ht : ∃ rest, Token.Leads ⟨.word, s⟩ rest) :
    IsFree (outline (.literal s)) :=
  isFree_append isFree_nil (not_mem_outline_literal ht rfl) (not_mem_outline_literal ht rfl)

/-- What stands in a template opens nothing by itself. -/
theorem IsPiece.isFree (h : IsPiece e) : IsFree (outline e) := by
  cases h with
  | text _ hfree => rwa [outline]
  | property | metadata | items | projection => exact isFree_none

/-- What is spelled can be quoted. -/
theorem Spelled.isFree (h : Spelled e) : IsFree (outline e) := by
  cases h with
  | @literal s hs =>
    exact isFree_outline_literal (leads_of_mem_ofText (s := s) (hs ▸ List.mem_cons_self))
  | text hfree => rwa [outline]
  | piece hpiece => exact hpiece.isFree
  | concat _ hfree => rwa [outline]
  | not | binary | call => exact isFree_none

/-- What is in no outline is not in all of them together. -/
theorem not_mem_outlineAll {a : Option Char} (h : ∀ e ∈ es, a ∉ outline e) :
    a ∉ outlineAll es := by
  induction es with
  | nil => exact nofun
  | cons e es ih =>
    rw [List.forall_mem_cons] at h
    rw [outlineAll, List.mem_append, not_or]
    exact ⟨h.1, ih h.2⟩

/-- An adjacent operand is a literal, a reference or a call, so no delimiter stands in its
outline. -/
theorem not_mem_outline_of_primary {c : Char} {k : TokenKind} (h : Primary (t :: ts) e)
    (hbegins : BeginsAdjacent t.kind) (ht : ∃ rest, Token.Leads t rest)
    (hc : Token.delimiter? c = some k) : some c ∉ outline e := by
  cases h with
  -- Neither a bracket nor a quote begins an adjacent operand.
  | bracketed | quoted => simp [BeginsAdjacent, IsSigil] at hbegins
  | reference hts =>
    rw [outline_of_reference hts]
    exact nofun
  | call => exact nofun
  | literal => exact not_mem_outline_literal ht hc

/-- Where operands touch each other, no delimiter is in the outline of one. -/
theorem not_mem_outline_of_adjacent {c : Char} {k : TokenKind}
    (hc : Token.delimiter? c = some k) :
    ∀ {ts : List Token} {es : List Expr}, Adjacent ts es → Lexed ts →
      ∀ e ∈ es, some c ∉ outline e
  | _, _, .nil, _ => nofun
  | _, _, .cons hbegins hts hus, hlexed => by
    rw [lexed_append_iff, lexed_cons_iff] at hlexed
    exact List.forall_mem_cons.2 ⟨not_mem_outline_of_primary hts hbegins hlexed.1.1 hc,
      not_mem_outline_of_adjacent hc hus hlexed.2⟩

mutual

/-- What the tokens of a text make as a primary is spelled. -/
theorem spelled_of_primary :
    ∀ {ts : List Token} {e : Expr}, Primary ts e → Lexed ts → Spelled e
  | _, _, .bracketed hts _, h => spelled_of_operation hts fun t ht => h t (by simp [ht])
  | _, _, .quoted hts, h => by
    have hlexed := fun t ht => h t (List.mem_cons_of_mem _ (List.mem_append_left _ ht))
    exact .concat (fun e he => .piece ((isPiece_of_template hts rfl hlexed).1 e he))
      (isFree_of_template hts rfl hlexed)
  | _, _, .reference hts, h => .piece (isPiece_of_reference hts h)
  | _, _, .call _ hts _, h => .call (spelled_of_operation hts fun t ht => h t (by simp [ht]))
  | _, _, .literal, h => .literal (ofText_of_isWord (h _ List.mem_cons_self) (.inl rfl))

/-- What touches an operand is spelled. -/
theorem spelled_of_adjacent :
    ∀ {ts : List Token} {es : List Expr}, Adjacent ts es → Lexed ts → ∀ e ∈ es, Spelled e
  | _, _, .nil, _ => nofun
  | _, _, .cons _ hts hus, h => by
    rw [lexed_append_iff] at h
    exact List.forall_mem_cons.2 ⟨spelled_of_primary hts h.1, spelled_of_adjacent hus h.2⟩

/-- What the tokens of a text make as an operand is spelled. -/
theorem spelled_of_unary :
    ∀ {ts : List Token} {e : Expr}, Unary ts e → Lexed ts → Spelled e
  | _, _, .not _ hts, h => .not (spelled_of_unary hts (lexed_append_iff.1 h).2)
  | _, _, .single _ hts, h => spelled_of_primary hts (lexed_append_iff.1 h).2
  | _, _, .joined _ hts hus, h => by
    rw [lexed_append_iff, lexed_append_iff] at h
    have hfirst := spelled_of_primary hts h.1.2
    -- No bracket and no quote stands in an adjacent operand, so none can meet a sigil of the first.
    refine .concat (List.forall_mem_cons.2 ⟨hfirst, spelled_of_adjacent hus h.2⟩) ?_
    rw [outlineAll]
    exact isFree_append hfirst.isFree
      (not_mem_outlineAll (not_mem_outline_of_adjacent rfl hus h.2))
      (not_mem_outlineAll (not_mem_outline_of_adjacent rfl hus h.2))

/-- What the tokens of a text make as a right operand is spelled. -/
theorem spelled_of_operand :
    ∀ {p : Precedence} {ts : List Token} {e : Expr}, Operand p ts e → Lexed ts → Spelled e
  | _, _, _, .tighter _ hts, h => spelled_of_operation hts h
  | _, _, _, .unary _ hts, h => spelled_of_unary hts h

/-- What the tokens of a text make as an operation is spelled. -/
theorem spelled_of_operation :
    ∀ {p : Precedence} {ts : List Token} {e : Expr}, Grammar.Operation p ts e → Lexed ts →
      Spelled e
  | _, _, _, .operand hts, h => spelled_of_operand hts h
  | _, _, _, .binary hts _ _ hus, h => by
    rw [lexed_append_iff, lexed_append_iff] at h
    exact .binary (spelled_of_operation hts h.1.1) (spelled_of_operand hus h.2)

end

/-- What the tokens of a text make as elements of a list is spelled. -/
theorem spelled_of_elements (h : Elements ts es) (hts : Lexed ts) : ∀ e ∈ es, Spelled e := by
  induction h with
  | nil => exact nofun
  | cons _ hts' _ ih =>
    rw [lexed_append_iff, lexed_append_iff] at hts
    exact List.forall_mem_cons.2 ⟨spelled_of_operation hts' hts.1.2, ih hts.2⟩

/-- A text spells one expression or a list of several. -/
theorem spelled_of_condition (h : Condition ts e) (hts : Lexed ts) :
    Spelled e ∨ ∃ f g es, e = .list (f :: g :: es) ∧ ∀ x ∈ f :: g :: es, Spelled x := by
  cases h with
  | blank => exact .inl (.text isFree_nil)
  | single hfirst _ => exact .inl (spelled_of_operation hfirst (lexed_append_iff.1 hts).1)
  | list hfirst hmore _ =>
    rw [lexed_append_iff, lexed_append_iff] at hts
    exact .inr ⟨_, _, _, rfl, List.forall_mem_cons.2
      ⟨spelled_of_operation hfirst hts.1.1, spelled_of_elements hmore hts.1.2⟩⟩

end BuildEngine.Expr
