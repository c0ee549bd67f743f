import BuildEngine.Proofs.Expr.Soundness

/-!
# What is spelled is read

Tokens that the grammar derives are read as what they spell, provided that the tokens behind them
cannot belong to it: an operand ends where nothing touches it that would continue it (`Ends`), and
an operation in front of an operator that is looser than it may hold (`LooseNext`). With the other
direction reading is the grammar (`ofTokens_follows_grammar`).
-/

namespace BuildEngine.Expr

open Grammar

variable {input rest : Input} {e : Expr} {parts es : List Expr} {s : String}
  {k stop : TokenKind} {t : Token} {ts us : List Token}

/-- Nothing here continues an operand that it touches. -/
def Ends (us : List Token) : Prop :=
  ∀ t ∈ us.head?, ¬ BeginsAdjacent t.kind ∧ t.kind ≠ .openBracket

/-- Blank tokens continue no operand. -/
theorem ends_of_blanks (h : Blanks us) : Ends us := by
  intro t ht
  rw [h t (List.mem_of_mem_head? ht)]
  exact ⟨by simp [BeginsAdjacent, IsSigil], nofun⟩

/-- A symbol that neither begins an operand nor opens brackets continues none, with blanks before it
or not. -/
theorem ends_of_spaced (h : Spaced k ts s) (hadjacent : ¬ BeginsAdjacent k)
    (hbracket : k ≠ .openBracket) (us : List Token) : Ends (ts ++ us) := by
  -- The first token is the one of the spaced pair, or a blank in front of it.
  obtain ⟨hb⟩ := h
  rename_i b
  cases b with
  | nil =>
    intro t ht
    obtain rfl : (⟨k, s⟩ : Token) = t := Option.some.inj ht
    exact ⟨hadjacent, hbracket⟩
  | cons u b =>
    intro t ht
    obtain rfl : u = t := Option.some.inj ht
    rw [hb u List.mem_cons_self]
    exact ⟨by simp [BeginsAdjacent, IsSigil], nofun⟩

/-! ## References and templates -/

/-- Every name of the grammar is read. -/
theorem exists_name {n : String} (hts : Name ts n) (h : tokens input = ts ++ us) :
    ∃ k rest, isNameKind k = true ∧ Next k input n rest ∧ tokens rest = us := by
  obtain ⟨hk, hts⟩ := hts
  rename_i k
  have hkind : k ≠ .blank ∧ isNameKind k = true := by
    cases k <;> simp_all [isNameKind]
  obtain ⟨rest, hnext, hrest⟩ := exists_next hts hkind.1 h
  exact ⟨k, rest, hkind.2, hnext, hrest⟩

/-- Text is read up to where it ends, and what is read behind it follows it. -/
theorem plain_complete {vs : List Token} (hts : Plain stop ts) (h : tokens input = ts ++ us)
    (hus : ∀ t ∈ us.head?, t.kind ≠ .openBracket)
    (hparts : ∀ s, parts.head? ≠ some (.quoted s))
    (hmore : ∀ r, tokens r = us → ∃ rest, Reads (template stop r) parts rest ∧ tokens rest = vs) :
    ∃ rest, Reads (template stop input) (textPart ts ++ parts) rest ∧ tokens rest = vs := by
  -- On the tokens of the text: each is read as text, since it does not end the template and starts
  -- no reference.
  induction ts generalizing input with
  | nil => exact hmore input h
  | cons t ts ih =>
    obtain ⟨i, r, rfl, hr⟩ := tokens_eq_cons_iff.1 h
    obtain ⟨hstop, hchain⟩ := hts
    rw [List.forall_mem_cons] at hstop
    rw [List.isChain_cons] at hchain
    obtain ⟨rest, hreads, hrest⟩ := ih ⟨hstop.2, hchain.2⟩ hr
    refine ⟨rest, ?_, hrest⟩
    rw [reads_template_text_iff hstop.1]
    · exact ⟨_, hreads, (consTemplateText_textPart t ts hparts).symm⟩
    · rintro ⟨hsigil, hbracket⟩
      obtain ⟨u, hu, hkind⟩ := startsBracket_iff.1 hbracket
      rw [hr] at hu
      cases ts with
      | nil => exact hus u hu hkind
      | cons v ts => exact hchain.1 u hu hsigil hkind

/-- A sigil is no bracket. -/
theorem ne_openBracket_of_isSigil (h : IsSigil k) : k ≠ .openBracket := by
  rcases h with rfl | rfl | rfl <;> exact nofun

/-- A bracketed name behind a sigil. -/
theorem bracketedName_complete {n b c : String} {ns cs : List Token} (hns : Name ns n)
    (hcs : Spaced .closeBracket cs c)
    (h : tokens input = ⟨k, s⟩ :: ⟨.openBracket, b⟩ :: (ns ++ cs) ++ us) :
    ∃ i j r₁ k' r₂ rest, input = (⟨k, s⟩, i) :: (⟨.openBracket, b⟩, j) :: r₁ ∧
      isNameKind k' = true ∧ Next k' r₁ n r₂ ∧ Next .closeBracket r₂ c rest ∧
        tokens rest = us := by
  simp only [List.cons_append, List.append_assoc] at h
  obtain ⟨i, r, rfl, hr⟩ := tokens_eq_cons_iff.1 h
  obtain ⟨j, r₁, rfl, hr₁⟩ := tokens_eq_cons_iff.1 hr
  obtain ⟨k', r₂, hk', hname, hr₂⟩ := exists_name hns hr₁
  obtain ⟨rest, hclose, hrest⟩ := exists_next hcs nofun hr₂
  exact ⟨i, j, r₁, k', r₂, rest, rfl, hk', hname, hclose, hrest⟩

-- A projection holds a template, and a template holds references: one induction for both.
mutual

/-- Every reference of the grammar is read behind its sigil. -/
theorem reference_complete :
    ∀ {ts : List Token} {e : Expr}, Reference ts e → ∀ {input us}, tokens input = ts ++ us →
      ∃ k s i r rest, input = (⟨k, s⟩, i) :: r ∧ IsSigil k ∧ startsBracket r = true ∧
        Reads (afterSigil k r) e rest ∧ tokens rest = us
  -- The constructor gives the tokens, and each of them is the next one that is read.
  | _, _, .property (s := s) hns hcs, input, us, h => by
    obtain ⟨i, j, r₁, k, r₂, rest, rfl, hk, hname, hclose, hrest⟩ :=
      bracketedName_complete hns hcs h
    refine ⟨.dollar, s, i, _, rest, rfl, .inl rfl, rfl, ?_, hrest⟩
    exact reads_reference_iff.2 ⟨_, j, r₁, k, _, r₂, _, rfl, hk, hname, hclose, rfl⟩
  | _, _, .metadata (s := s) hns hcs, input, us, h => by
    obtain ⟨i, j, r₁, k, r₂, rest, rfl, hk, hname, hclose, hrest⟩ :=
      bracketedName_complete hns hcs h
    refine ⟨.percent, s, i, _, rest, rfl, .inr (.inl rfl), rfl, ?_, hrest⟩
    exact reads_reference_iff.2 ⟨_, j, r₁, k, _, r₂, _, rfl, hk, hname, hclose, rfl⟩
  | _, _, .items (s := s) hns hcs, input, us, h => by
    obtain ⟨i, j, r₁, k, r₂, rest, rfl, hk, hname, hclose, hrest⟩ :=
      bracketedName_complete hns hcs h
    refine ⟨.at, s, i, _, rest, rfl, .inr (.inr rfl), rfl, ?_, hrest⟩
    exact reads_itemReference_iff.2 ⟨_, j, r₁, k, _, r₂, rfl, hk, hname, .inl ⟨_, hclose, rfl⟩⟩
  -- A projection holds a template, so this goes on in `template_complete`.
  | _, _, .projection (s := s) hns has hqs hts hcs, input, us, h => by
    simp only [List.cons_append, List.append_assoc] at h
    obtain ⟨i, r, rfl, hr⟩ := tokens_eq_cons_iff.1 h
    obtain ⟨j, r₁, rfl, hr₁⟩ := tokens_eq_cons_iff.1 hr
    obtain ⟨k, r₂, hk, hname, hr₂⟩ := exists_name hns hr₁
    obtain ⟨r₃, harrow, hr₃⟩ := exists_next has nofun hr₂
    obtain ⟨r₄, hquote, hr₄⟩ := exists_next hqs nofun hr₃
    obtain ⟨r₅, hparts, hr₅⟩ := template_complete hts (by simp [IsSigil]) nofun hr₄
      (by rintro t ⟨⟩; rfl)
    obtain ⟨l, r₆, rfl, hr₆⟩ := tokens_eq_cons_iff.1 hr₅
    obtain ⟨rest, hclose, hrest⟩ := exists_next hcs nofun hr₆
    refine ⟨.at, s, i, _, rest, rfl, .inr (.inr rfl), rfl, ?_, hrest⟩
    exact reads_itemReference_iff.2 ⟨_, j, r₁, k, _, r₂, rfl, hk, hname,
      .inr ⟨_, r₃, _, r₄, _, _, r₆, _, harrow, hquote, hparts, hclose, rfl⟩⟩

/-- Every template of the grammar is read, up to a token that stops it. -/
theorem template_complete :
    ∀ {stop : TokenKind} {ts : List Token} {parts : List Expr}, Template stop ts parts →
      ¬ IsSigil stop → stop ≠ .openBracket → ∀ {input us}, tokens input = ts ++ us →
        (∀ t ∈ us.head?, t.kind = stop) →
          ∃ rest, Reads (template stop input) parts rest ∧ tokens rest = us
  | stop, ts, _, .text hts, _, hbracket, input, us, h, hus => by
    -- A text alone ends where the template does.
    rw [← List.append_nil (textPart ts)]
    refine plain_complete hts h (fun t ht => (hus t ht).trans_ne hbracket) (by simp) ?_
    intro r hr
    refine ⟨r, ?_, hr⟩
    cases r with
    | nil => exact reads_template_nil_iff.2 ⟨rfl, rfl⟩
    | cons t r =>
      subst hr
      exact (reads_template_stop_iff (hus t.1 rfl)).2 ⟨rfl, rfl⟩
  -- A text with a reference behind it, and the template that follows that.
  | stop, _, _, @Template.reference _ ts rs vs e _ hts hrs hvs, hsigil, hbracket, input, us, h,
      hus => by
    have hhead : ∀ t ∈ (rs ++ (vs ++ us)).head?, IsSigil t.kind := by
      cases hrs <;> rintro t ⟨⟩ <;> simp [IsSigil]
    rw [List.append_assoc, List.append_assoc] at h
    refine plain_complete hts h (fun t ht => ne_openBracket_of_isSigil (hhead t ht))
      (fun s hs => ne_quoted_of_reference hrs s (Option.some.inj hs)) ?_
    intro r hr
    obtain ⟨k, s, i, r₁, r₂, rfl, hk, hstarts, he, hr₂⟩ := reference_complete hrs hr
    obtain ⟨rest, hmore, hrest⟩ := template_complete hvs hsigil hbracket hr₂ hus
    refine ⟨rest, ?_, hrest⟩
    refine (reads_template_reference_iff ?_ hk hstarts).2 ⟨e, r₂, _, he, hmore, rfl⟩
    rintro rfl
    exact hsigil hk

end

/-! ## What comes next -/

/-- There is one next token. -/
theorem Next.unique {k' : TokenKind} {s' : String} {rest' : Input} (h : Next k input s rest)
    (h' : Next k' input s' rest') : k = k' ∧ s = s' ∧ rest = rest' := by
  obtain ⟨i, h⟩ := h
  obtain ⟨j, h'⟩ := h'
  rw [h] at h'
  cases h'
  exact ⟨rfl, rfl, rfl⟩

/-- An operator that comes next has as many tighter levels as its precedence. -/
theorem looseNext_of_infix {p : Precedence} {op : BinaryOp} (h : Next k input s rest)
    (hop : Infix p k op) : LooseNext p.height input := by
  intro k' s' rest' p' op' h' hop'
  obtain ⟨rfl, -, -⟩ := h.unique h'
  obtain ⟨hkind, rfl⟩ := infix_iff.1 hop
  obtain ⟨hkind', rfl⟩ := infix_iff.1 hop'
  rw [hkind] at hkind'
  cases hkind'
  exact Nat.le_refl _

/-- An operator is neither blank, nor does it begin an operand or open brackets. -/
theorem kind_of_infix {p : Precedence} {op : BinaryOp} (h : Infix p k op) :
    k ≠ .blank ∧ ¬ BeginsAdjacent k ∧ k ≠ .openBracket := by
  cases h <;> simp [BeginsAdjacent, IsSigil]

/-- Where something else than an operator comes next, none does. -/
theorem looseNext_of_operator?_eq_none (m : Nat) (h : Next k input s rest)
    (hk : operator? k = none) : LooseNext m input := by
  intro k' s' rest' p op h' hop
  obtain ⟨rfl, -, -⟩ := h.unique h'
  rw [(infix_iff.1 hop).1] at hk
  cases hk

/-- In front of a token that is no operator, no operator comes next. -/
theorem looseNext_of_spaced (m : Nat) (hts : Spaced k ts s) (hblank : k ≠ .blank)
    (hk : operator? k = none) (h : tokens input = ts ++ us) : LooseNext m input := by
  obtain ⟨rest, hnext, -⟩ := exists_next hts hblank h
  exact looseNext_of_operator?_eq_none m hnext hk

section Operations

variable {p q : Precedence} {l : Expr} {r r' : Input}

/-- Operators are looked for behind the blank tokens. -/
theorem reads_operations_congr (h : skipBlank r = skipBlank r') :
    Reads (operations p l r) e rest ↔ Reads (operations p l r') e rest := by
  rw [reads_operations_iff, reads_operations_iff]
  simp only [h, next_congr h]

/-- An operator that is looser than wanted ends an operation. -/
theorem reads_operations_of_looseNext (h : LooseNext (p.height + 1) r) :
    Reads (operations p e r) e (skipBlank r) := by
  refine reads_operations_iff.2 (.inl ⟨?_, rfl, rfl⟩)
  cases hop : operatorAt? p (skipBlank r) with
  | none => rfl
  | some result =>
    obtain ⟨k, s, hnext, hop, hle⟩ := operatorAt?_eq_some_iff.1 hop
    exact absurd (h hnext hop) (by omega)

/-- An operation that something else than an operator stands behind. -/
theorem reads_operation_of_next (hnext : Next k r s rest) (hk : operator? k = none)
    (h : ∀ f rest, Reads (operations p e r) f rest → Reads (operation p input) f rest) :
    Reads (operation p input) e (skipBlank r) ∧ Next k (skipBlank r) s rest :=
  ⟨h e _ (reads_operations_of_looseNext (looseNext_of_operator?_eq_none _ hnext hk)),
    (next_congr (skipBlank_skipBlank r)).2 hnext⟩

/-! ## Operands -/

/-- Primaries that touch begin with no bracket. -/
theorem head_adjacent (h : Adjacent ts es) (hus : Ends us) :
    ∀ t ∈ (ts ++ us).head?, t.kind ≠ .openBracket := by
  intro t ht
  cases h with
  | nil => exact (hus t ht).2
  | cons hbegins _ _ =>
    cases ht
    rcases hbegins with hword | hsigil
    · rw [hword]
      exact nofun
    · exact ne_openBracket_of_isSigil hsigil

/-- Where nothing continues an operand nothing more is read. -/
theorem reads_adjacent_of_ends (h : Ends (tokens r)) : Reads (adjacent r) [] r := by
  refine (reads_adjacent_stop_iff ?_).2 ⟨rfl, rfl⟩
  intro t ht
  refine (h t.1 ?_).1
  rw [tokens, List.head?_map]
  exact Option.mem_map_of_mem Prod.fst ht

/-- An operand is read as its first part and what continues it. -/
theorem reads_unary_of_primary {i : Nat} (hskip : skipBlank input = skipBlank ((t, i) :: r))
    (hfirst : Reads (primary t i r) e r') (hmore : Reads (adjacent r') es rest) :
    Reads (unary input) (ofAdjacent e es) rest := by
  have hbegins := begins_of_reads_primary hfirst
  have hkind : t.kind ≠ .blank ∧ t.kind ≠ .not := by
    constructor <;> intro h <;> simp [h] at hbegins
  rw [skipBlank_cons hkind.1] at hskip
  exact (reads_unary_primary_iff hskip hkind.2).2 ⟨e, r', es, hfirst, hmore, rfl⟩

/-! ## Derivations -/

mutual

/-- Every primary of the grammar is read, unless brackets follow that would make it a call. -/
theorem primary_complete :
    ∀ {ts : List Token} {e : Expr}, Primary ts e → ∀ {input us}, tokens input = ts ++ us →
      (∀ t ∈ us.head?, t.kind ≠ .openBracket) →
        ∃ t i r rest, input = (t, i) :: r ∧ Reads (primary t i r) e rest ∧ tokens rest = us
  | _, _, .bracketed hts hcs, input, us, h, _ => by
    simp only [List.cons_append, List.append_assoc] at h
    obtain ⟨i, r, rfl, hr⟩ := tokens_eq_cons_iff.1 h
    obtain ⟨r₁, hr₁, he⟩ := operation_complete (q := .disjunction) hts hr
      (ends_of_spaced hcs (by simp [BeginsAdjacent, IsSigil]) nofun us)
      (looseNext_of_spaced _ hcs nofun rfl) (Nat.le_refl _)
    obtain ⟨rest, hclose, hrest⟩ := exists_next hcs nofun hr₁
    obtain ⟨he, hclose⟩ := reads_operation_of_next hclose rfl he
    exact ⟨_, i, r, rest, rfl, reads_primary_openBracket_iff.2 ⟨_, _, he, hclose⟩, hrest⟩
  | _, _, .quoted hts, input, us, h, _ => by
    simp only [List.cons_append, List.append_assoc] at h
    obtain ⟨i, r, rfl, hr⟩ := tokens_eq_cons_iff.1 h
    obtain ⟨r₁, hparts, hr₁⟩ := template_complete hts (by simp [IsSigil]) nofun hr
      (by rintro t ⟨⟩; rfl)
    obtain ⟨j, rest, rfl, hrest⟩ := tokens_eq_cons_iff.1 hr₁
    exact ⟨_, i, r, rest, rfl, reads_primary_quote_iff.2 ⟨_, _, hparts, rfl⟩, hrest⟩
  | _, _, .reference hts, input, us, h, _ => by
    obtain ⟨k, s, i, r, rest, rfl, hk, -, he, hrest⟩ := reference_complete hts h
    exact ⟨_, i, r, rest, rfl, (reads_primary_sigil_iff hk).2 he, hrest⟩
  | _, _, .call hf hts hcs, input, us, h, _ => by
    simp only [List.cons_append, List.append_assoc] at h
    obtain ⟨i, r, rfl, hr⟩ := tokens_eq_cons_iff.1 h
    obtain ⟨j, r₀, rfl, hr₀⟩ := tokens_eq_cons_iff.1 hr
    obtain ⟨r₁, hr₁, he⟩ := operation_complete (q := .disjunction) hts hr₀
      (ends_of_spaced hcs (by simp [BeginsAdjacent, IsSigil]) nofun us)
      (looseNext_of_spaced _ hcs nofun rfl) (Nat.le_refl _)
    obtain ⟨rest, hclose, hrest⟩ := exists_next hcs nofun hr₁
    obtain ⟨he, hclose⟩ := reads_operation_of_next hclose rfl he
    exact ⟨_, i, _, rest, rfl, (reads_primary_call_iff hf).2 ⟨_, _, _, he, hclose, rfl⟩, hrest⟩
  | _, _, .literal, input, us, h, hus => by
    obtain ⟨i, r, rfl, hr⟩ := tokens_eq_cons_iff.1 h
    refine ⟨_, i, r, r, rfl, (reads_primary_literal_iff (.inr ?_)).2 ⟨rfl, rfl⟩, hr⟩
    -- A bracket behind the word would have to be part of what the word stands in.
    rw [← Bool.not_eq_true, startsBracket_iff]
    rintro ⟨t, ht, hbracket⟩
    rw [hr] at ht
    exact hus t ht hbracket

/-- All that touches an operand is read, up to where nothing continues it. -/
theorem adjacent_complete :
    ∀ {ts : List Token} {es : List Expr}, Adjacent ts es → ∀ {input us},
      tokens input = ts ++ us → Ends us →
        ∃ rest, Reads (adjacent input) es rest ∧ tokens rest = us
  | _, _, .nil, input, us, h, hus => by
    obtain rfl : tokens input = us := h
    exact ⟨input, reads_adjacent_of_ends hus, rfl⟩
  | _, _, .cons hbegins hts hvs, input, us, h, hus => by
    rw [List.append_assoc] at h
    obtain ⟨t, i, r, r₁, rfl, he, hr₁⟩ := primary_complete hts h (head_adjacent hvs hus)
    obtain ⟨rest, hmore, hrest⟩ := adjacent_complete hvs hr₁ hus
    obtain rfl := (List.cons.inj h).1
    exact ⟨rest, (reads_adjacent_cons_iff hbegins).2 ⟨_, r₁, _, he, hmore, rfl⟩, hrest⟩

/-- Every operand of the grammar is read, where nothing continues it. -/
theorem unary_complete :
    ∀ {ts : List Token} {e : Expr}, Unary ts e → ∀ {input us}, tokens input = ts ++ us → Ends us →
      ∃ rest, Reads (unary input) e rest ∧ tokens rest = us
  -- One `!` and the operand behind it.
  | _, _, .not hns hts, input, us, h, hus => by
    rw [List.append_assoc] at h
    obtain ⟨r, hnext, hr⟩ := exists_next hns nofun h
    obtain ⟨rest, he, hrest⟩ := unary_complete hts hr hus
    exact ⟨rest, (reads_unary_not_iff hnext).2 ⟨_, he, rfl⟩, hrest⟩
  | _, _, .single hb hts, input, us, h, hus => by
    rw [List.append_assoc] at h
    obtain ⟨r, hr, hskip⟩ := exists_skipBlank_eq hb h
    obtain ⟨t, i, r, rest, rfl, he, rfl⟩ := primary_complete hts hr fun t ht => (hus t ht).2
    exact ⟨rest, reads_unary_of_primary hskip he (reads_adjacent_of_ends hus), rfl⟩
  -- A primary with others joined to it, which starts where the first one ends.
  | _, _, .joined hb hts hvs, input, us, h, hus => by
    rw [List.append_assoc, List.append_assoc] at h
    obtain ⟨r, hr, hskip⟩ := exists_skipBlank_eq hb h
    obtain ⟨t, i, r, r₁, rfl, he, hr₁⟩ := primary_complete hts hr (head_adjacent hvs hus)
    obtain ⟨rest, hmore, hrest⟩ := adjacent_complete hvs hr₁ hus
    exact ⟨rest, reads_unary_of_primary hskip he hmore, hrest⟩

/-- Every right operand of the grammar is read, in front of operators that are no tighter. -/
theorem operand_complete :
    ∀ {p : Precedence} {ts : List Token} {e : Expr}, Operand p ts e → ∀ {input us},
      tokens input = ts ++ us → Ends us → (∀ {r}, tokens r = us → LooseNext p.height r) →
        ∃ r r', Reads (rightOperand p input) e r ∧ skipBlank r = skipBlank r' ∧ tokens r' = us
  -- The operand is an operation of the next tighter level, or a unary one.
  | p, _, _, .tighter hp hts, input, us, h, hus, hloose => by
    have hheight := Precedence.height_tighter hp
    obtain ⟨r, hr, he⟩ := operation_complete hts h hus
      (fun hr _ _ _ _ _ hnext hop => by have := hloose hr hnext hop; omega) (Nat.le_refl _)
    rw [rightOperand_of_tighter hp]
    refine ⟨skipBlank r, r, he _ _ (reads_operations_of_looseNext ?_), skipBlank_skipBlank r, hr⟩
    rw [hheight]
    exact hloose hr
  -- No level is tighter, so no operator can follow either.
  | p, _, _, .unary hp hts, input, us, h, hus, _ => by
    obtain ⟨rest, he, hrest⟩ := unary_complete hts h hus
    rw [rightOperand_of_tightest hp]
    exact ⟨rest, rest, he, rfl, hrest⟩

/-- An operation of a level is read as far as its operators go, also where looser operators are
wanted; these go on from there. -/
theorem operation_complete :
    ∀ {p : Precedence} {ts : List Token} {e : Expr}, Operation p ts e → ∀ {q : Precedence}
      {input us}, tokens input = ts ++ us → Ends us →
        (∀ {r}, tokens r = us → LooseNext p.height r) → p.height ≤ q.height →
          ∃ r, tokens r = us ∧ ∀ f rest, Reads (operations q e r) f rest →
            Reads (operation q input) f rest
  | p, _, _, .operand (.tighter hp hts), q, input, us, h, hus, hloose, hle => by
    have hheight := Precedence.height_tighter hp
    exact operation_complete hts h hus
      (fun hr _ _ _ _ _ hnext hop => by have := hloose hr hnext hop; omega) (by omega)
  | p, _, _, .operand (.unary hp hts), q, input, us, h, hus, _, _ => by
    obtain ⟨r, he, hr⟩ := unary_complete hts h hus
    exact ⟨r, hr, fun f rest hreads => reads_operation_iff.2 ⟨_, r, he, hreads⟩⟩
  | p, _, _, .binary hl hop hos hrhs, q, input, us, h, hus, hloose, hle => by
    rw [List.append_assoc, List.append_assoc] at h
    obtain ⟨hblank, hadjacent, hbracket⟩ := kind_of_infix hop
    obtain ⟨hkind, hp⟩ := infix_iff.1 hop
    -- The operator ends its left operand, and is read behind it as it is not too loose.
    obtain ⟨r₀, hr₀, hgo⟩ := operation_complete hl h (ends_of_spaced hos hadjacent hbracket _)
      (fun hr => have ⟨_, hnext, _⟩ := exists_next hos hblank hr
        looseNext_of_infix hnext hop) hle
    obtain ⟨r₁, hnext, hr₁⟩ := exists_next hos hblank hr₀
    obtain ⟨r₂, r₃, hrhs, hskip, hr₃⟩ := operand_complete hrhs hr₁ hus hloose
    refine ⟨r₃, hr₃, fun f rest hreads => hgo f rest (reads_operations_iff.2 (.inr ?_))⟩
    subst hp
    exact ⟨_, _, r₁, _, _, r₂, hnext, hop, hle, hrhs, (reads_operations_congr hskip).2 hreads⟩

end

end Operations

/-! ## Conditions -/

/-- The elements of a list, behind a separator, continue no operand. -/
theorem ends_of_elements (h : Elements ts es) {b : List Token} (hb : Blanks b) :
    Ends (ts ++ b) := by
  cases h with
  | nil => exact ends_of_blanks hb
  | cons hss _ _ =>
    rw [List.append_assoc, List.append_assoc]
    exact ends_of_spaced hss (by simp [BeginsAdjacent, IsSigil]) nofun _

/-- In front of the elements behind a separator, no operator comes next. -/
theorem looseNext_of_elements (m : Nat) (hts : Elements ts es) {b : List Token} (hb : Blanks b)
    (h : tokens input = ts ++ b) : LooseNext m input := by
  cases hts with
  | nil =>
    rintro k s rest p op ⟨i, hskip⟩ -
    rw [skipBlank_eq_nil_iff.2 (h ▸ hb)] at hskip
    cases hskip
  | cons hss _ _ =>
    rw [List.append_assoc, List.append_assoc] at h
    exact looseNext_of_spaced m hss nofun rfl h

/-- Elements are read up to the end, from behind the blank tokens in front of them or from before
these. -/
theorem elements_complete (hts : Elements ts es) {b : List Token} (hb : Blanks b) :
    ∀ {input r}, tokens input = ts ++ b → skipBlank r = skipBlank input →
      Reads (elements r) es [] := by
  -- On the elements: the semicolon in front of each is found behind the blanks left over.
  induction hts with
  | nil =>
    intro input r h hskip
    have hnil : skipBlank r = [] := by
      rw [hskip, skipBlank_eq_nil_iff, h]
      exact hb
    exact (reads_elements_stop_iff (by simp [hnil])).2 ⟨rfl, hnil.symm⟩
  | cons hss hts hus ih =>
    intro input r h hskip
    simp only [List.append_assoc] at h
    obtain ⟨r₁, hnext, hr₁⟩ := exists_next hss nofun h
    obtain ⟨r₂, hr₂, he⟩ := operation_complete (q := .disjunction) hts hr₁
      (ends_of_elements hus hb) (looseNext_of_elements _ hus hb) (Nat.le_refl _)
    have he := he _ _ (reads_operations_of_looseNext (looseNext_of_elements _ hus hb hr₂))
    have hmore := ih hr₂ (skipBlank_skipBlank r₂)
    exact (reads_elements_cons_iff ((next_congr hskip).2 hnext)).2 ⟨_, _, _, he, hmore, rfl⟩

/-- An operation with elements behind it is read as a whole. -/
theorem ofTokens_of_elements {b : List Token} (hts : Operation .disjunction ts e)
    (hus : Elements us es) (hb : Blanks b) :
    ofTokens (ts ++ us ++ b) = .ok (ofElements e es) := by
  have h : tokens (ts ++ us ++ b).zipIdx = ts ++ (us ++ b) := by
    rw [tokens_zipIdx, List.append_assoc]
  obtain ⟨r, hr, he⟩ := operation_complete (q := .disjunction) hts h (ends_of_elements hus hb)
    (looseNext_of_elements _ hus hb) (Nat.le_refl _)
  have he := he _ _ (reads_operations_of_looseNext (looseNext_of_elements _ hus hb hr))
  have hmore := elements_complete hus hb hr (skipBlank_skipBlank r)
  exact ofTokens_eq_ok_iff.2 (.inr ⟨e, _, es, he, hmore, rfl⟩)

/-- Every condition of the grammar is read. -/
theorem ofTokens_of_condition (h : Condition ts e) : ofTokens ts = .ok e := by
  cases h with
  | blank hb =>
    refine ofTokens_eq_ok_iff.2 (.inl ⟨?_, rfl⟩)
    rwa [skipBlank_eq_nil_iff, tokens_zipIdx]
  | @single us b _ hus hb =>
    have heq := ofTokens_of_elements hus .nil hb
    rwa [List.append_nil] at heq
  | list hts hus hb => exact ofTokens_of_elements hts hus hb

/-- Reading is the grammar: tokens are read as the condition that they spell, and tokens that spell
no condition are refused. No tokens spell two conditions therefore. -/
theorem ofTokens_follows_grammar (ts : List Token) :
    (∀ e, ofTokens ts = .ok e ↔ Condition ts e) ∧
      ((∃ err, ofTokens ts = .error err) ↔ ∀ e, ¬ Condition ts e) ∧
        ∀ e f, Condition ts e → Condition ts f → e = f := by
  have hiff : ∀ e, ofTokens ts = .ok e ↔ Condition ts e :=
    fun e => ⟨condition_of_ofTokens, ofTokens_of_condition⟩
  refine ⟨hiff, ?_, ?_⟩
  · constructor
    · rintro ⟨err, herr⟩ e he
      rw [(hiff e).2 he] at herr
      cases herr
    -- A text that is refused has no tree, and one without a tree cannot be accepted.
    · intro hnone
      cases h : ofTokens ts with
      | error err => exact ⟨err, rfl⟩
      | ok e => exact absurd ((hiff e).1 h) (hnone e)
  · intro e f he hf
    rw [← hiff] at he hf
    exact Except.ok.inj (he.symm.trans hf)

end BuildEngine.Expr
