import BuildEngine.Proofs.Expr.Reading

/-!
# What is read is spelled

Whatever a reader yields, the tokens it consumed spell by the grammar. The readers of operations
are followed upwards by the length of their input: `OperationsSound n` says that operations are
read rightly from less than `n` tokens, which is what a bracket needs of what stands inside.

Behind an operation there is no operator that binds as tightly as the operation may hold
(`LooseNext`). This is what lets precedence climbing put an operator on top of all that was read
so far: the next operator never binds tighter than the one before.
-/

namespace BuildEngine.Expr

open Grammar

variable {input rest : Input} {e : Expr} {parts es : List Expr} {s : String} {n i : Nat}
  {k stop : TokenKind} {t : Token} {ts us : List Token}

/-! ## References and templates -/

/-- A token of a kind that can be a name is a name, with blanks before it. -/
theorem name_of_isNameKind (hk : isNameKind k = true) (hts : Spaced k ts s) : Name ts s := by
  refine .mk ?_ hts
  cases k <;> simp_all [isNameKind]

/-- References are read rightly once templates are, from what stands behind the sigil. -/
theorem afterSigil_sound
    (ih : ∀ {input rest parts}, input.length < n → Reads (template .quote input) parts rest →
      ∃ ts, tokens input = ts ++ tokens rest ∧ Template .quote ts parts ∧
        ∀ t ∈ rest.head?, t.1.kind = .quote)
    (hlength : input.length ≤ n) (hk : IsSigil k) (h : Reads (afterSigil k input) e rest)
    (s : String) : ∃ ts, tokens input = ts ++ tokens rest ∧ Reference (⟨k, s⟩ :: ts) e := by
  rcases hk with rfl | rfl | rfl
  -- The tokens of each reference are those of its parts, in the order in which they are read.
  · obtain ⟨b, i, r₁, k, name, r₂, c, rfl, hk, hname, hclose, rfl⟩ := reads_reference_iff.1 h
    obtain ⟨ns, hns, heq₁⟩ := hname.spaced
    obtain ⟨cs, hcs, heq₂⟩ := hclose.spaced
    refine ⟨⟨.openBracket, b⟩ :: (ns ++ cs), ?_, .property (name_of_isNameKind hk hns) hcs⟩
    simp [tokens_cons, heq₁, heq₂]
  · obtain ⟨b, i, r₁, k, name, r₂, c, rfl, hk, hname, hclose, rfl⟩ := reads_reference_iff.1 h
    obtain ⟨ns, hns, heq₁⟩ := hname.spaced
    obtain ⟨cs, hcs, heq₂⟩ := hclose.spaced
    refine ⟨⟨.openBracket, b⟩ :: (ns ++ cs), ?_, .metadata (name_of_isNameKind hk hns) hcs⟩
    simp [tokens_cons, heq₁, heq₂]
  · obtain ⟨b, i, r₁, k, name, r₂, rfl, hk, hname, h⟩ := reads_itemReference_iff.1 h
    obtain ⟨ns, hns, heq₁⟩ := hname.spaced
    rcases h with ⟨c, hclose, rfl⟩ |
      ⟨a, r₃, q, r₄, parts, close, r₅, c, harrow, hquote, hparts, hclose, rfl⟩
    · obtain ⟨cs, hcs, heq₂⟩ := hclose.spaced
      refine ⟨⟨.openBracket, b⟩ :: (ns ++ cs), ?_, .items (name_of_isNameKind hk hns) hcs⟩
      simp [tokens_cons, heq₁, heq₂]
    · obtain ⟨as, has, heq₂⟩ := harrow.spaced
      obtain ⟨qs, hqs, heq₃⟩ := hquote.spaced
      obtain ⟨cs, hcs, heq₄⟩ := hclose.spaced
      -- The template is read after three tokens of the reference, which the hypothesis asks for.
      have hlt : r₄.length < n := by
        have := hname.length_lt
        have := harrow.length_lt
        have := hquote.length_lt
        simp only [List.length_cons] at hlength
        omega
      obtain ⟨ts, heq₅, hts, hstop⟩ := ih hlt hparts
      obtain ⟨⟨k', q'⟩, j⟩ := close
      obtain rfl : k' = .quote := hstop _ rfl
      refine ⟨⟨.openBracket, b⟩ :: (ns ++ as ++ qs ++ ts ++ ⟨.quote, q'⟩ :: cs), ?_,
        .projection (name_of_isNameKind hk hns) has hqs hts hcs⟩
      simp [tokens_cons, heq₁, heq₂, heq₃, heq₄, heq₅]

/-- No reference is a text of its own. -/
theorem ne_quoted_of_reference (h : Reference ts e) (s : String) : e ≠ .quoted s := by
  cases h <;> exact nofun

/-- Text in front of what is no text becomes a part of its own, if there is any. -/
theorem consTemplateText_of_not_quoted (s : String) (h : ∀ s, parts.head? ≠ some (.quoted s)) :
    consTemplateText s parts = if s = "" then parts else .quoted s :: parts := by
  unfold consTemplateText
  split
  · next t parts => exact absurd rfl (h t)
  · simp only [String.isEmpty_iff]

/-- Text that is put in front of text becomes one part with it. -/
theorem consTemplateText_textPart (t : Token) (ts : List Token)
    (h : ∀ s, parts.head? ≠ some (.quoted s)) :
    consTemplateText t.text (textPart ts ++ parts) = textPart (t :: ts) ++ parts := by
  unfold textPart
  simp only [List.map_cons, String.join_cons]
  generalize String.join (ts.map Token.text) = text
  -- An empty text is no part, so the token starts one of its own or joins the one there is.
  by_cases htext : text = ""
  · subst htext
    rw [if_pos rfl, List.nil_append, consTemplateText_of_not_quoted _ h, String.append_empty]
    split <;> rfl
  · have happend : t.text ++ text ≠ "" := by
      simp [htext]
    rw [if_neg htext, if_neg happend]
    rfl

/-- A token of text in front of a template. -/
theorem template_cons (h : Template stop ts parts) (hstop : t.kind ≠ stop)
    (ht : IsSigil t.kind → ∀ u ∈ ts.head?, u.kind ≠ .openBracket) :
    Template stop (t :: ts) (consTemplateText t.text parts) := by
  -- The token may be put in front of plain tokens: it does not end them and opens nothing.
  have hplain {us : List Token} (hus : Plain stop us)
      (hhead : ∀ u ∈ us.head?, u ∈ ts.head?) : Plain stop (t :: us) := by
    refine ⟨List.forall_mem_cons.2 ⟨hstop, hus.1⟩, ?_⟩
    rw [List.isChain_cons]
    exact ⟨fun u hu hsigil => ht hsigil u (hhead u hu), hus.2⟩
  -- What the token stands before is a text to the end, or a text with a reference behind it.
  cases h with
  | text hts =>
    have htext := Template.text (hplain hts fun u hu => hu)
    have heq : consTemplateText t.text (textPart ts ++ []) = textPart (t :: ts) ++ [] :=
      consTemplateText_textPart t ts (by simp)
    rw [List.append_nil, List.append_nil] at heq
    rwa [heq]
  | @reference _ ts rs us e parts hts hrs hus =>
    have hhead : ∀ s, (e :: parts).head? ≠ some (.quoted s) := by
      intro s hs
      exact ne_quoted_of_reference hrs s (Option.some.inj hs)
    rw [consTemplateText_textPart t ts hhead]
    refine Template.reference (hplain hts ?_) hrs hus
    intro u hu
    -- The head of the text in front of the reference is the head of the whole.
    cases ts with
    | nil => cases hu
    | cons v ts => exact hu

/-- What is read as a template is spelled as one, and ends where it should. -/
theorem template_sound (h : Reads (template stop input) parts rest) :
    ∃ ts, tokens input = ts ++ tokens rest ∧ Template stop ts parts ∧
      ∀ t ∈ rest.head?, t.1.kind = stop := by
  -- On the length of the input: a projection in a template holds a template, up to another stop.
  induction hn : input.length using Nat.strong_induction_on generalizing stop input parts rest with
  | h n ih =>
    have hempty : Template stop [] [] := .text ⟨by simp, .nil⟩
    cases input with
    | nil =>
      obtain ⟨rfl, rfl⟩ := reads_template_nil_iff.1 h
      exact ⟨[], rfl, hempty, by simp⟩
    | cons u input =>
      obtain ⟨t, i⟩ := u
      subst hn
      by_cases hstop : t.kind = stop
      · obtain ⟨rfl, rfl⟩ := (reads_template_stop_iff hstop).1 h
        exact ⟨[], rfl, hempty, by simpa using hstop⟩
      by_cases href : IsSigil t.kind ∧ startsBracket input = true
      · obtain ⟨e, r, more, he, hmore, rfl⟩ :=
          (reads_template_reference_iff hstop href.1 href.2).1 h
        have hr : r.length < input.length := he.length_lt
        obtain ⟨rs, heq₁, hrs⟩ := afterSigil_sound (n := input.length)
          (fun hlt hreads => ih _ (hlt.trans (Nat.lt_succ_self _)) hreads rfl) (Nat.le_refl _)
          href.1 he t.text
        obtain ⟨us, heq₂, hus, hend⟩ := ih _ (hr.trans (Nat.lt_succ_self _)) hmore rfl
        refine ⟨[] ++ (t :: rs) ++ us, ?_, .reference ⟨by simp, .nil⟩ hrs hus, hend⟩
        simp [tokens_cons, heq₁, heq₂]
      · obtain ⟨more, hmore, rfl⟩ := (reads_template_text_iff hstop href).1 h
        obtain ⟨ts, heq, hts, hend⟩ := ih _ (Nat.lt_succ_self _) hmore rfl
        refine ⟨t :: ts, by rw [tokens_cons, heq, List.cons_append],
          template_cons hts hstop ?_, hend⟩
        intro hsigil u hu hbracket
        -- A bracket in the text would touch the sigil in the input as well.
        refine href ⟨hsigil, startsBracket_iff.2 ⟨u, ?_, hbracket⟩⟩
        cases ts with
        | nil => cases hu
        | cons v ts => rw [heq]; exact hu

/-! ## Operations -/

/-- The next operator, if one comes next, has at least this many tighter levels. -/
def LooseNext (height : Nat) (input : Input) : Prop :=
  ∀ {k s rest p op}, Next k input s rest → Infix p k op → height ≤ p.height

/-- Operations are read rightly from less than this many tokens, and no operator is left behind
them that they may hold. -/
def OperationsSound (n : Nat) : Prop :=
  ∀ {p input e rest}, input.length < n → Reads (operation p input) e rest →
    ∃ ts b, tokens input = ts ++ b ++ tokens rest ∧ Blanks b ∧ Operation p ts e ∧
      LooseNext (p.height + 1) rest

section Operations

variable {p q : Precedence} {l : Expr}

/-- An operation of a tighter level is one of every looser level. -/
theorem operation_of_height_le (h : Operation q ts e) (hle : q.height ≤ p.height) :
    Operation p ts e := by
  induction hd : p.height - q.height generalizing q with
  | zero =>
    have hpq : p = q := by
      cases p <;> cases q <;> simp_all [Precedence.height]
    exact hpq ▸ h
  | succ d ih =>
    -- The next looser level than `q` is still not looser than `p`.
    obtain ⟨r, hr⟩ : ∃ r : Precedence, r.tighter = some q := by
      cases q with
      | disjunction => cases p <;> simp [Precedence.height] at hd
      | conjunction => exact ⟨.disjunction, rfl⟩
      | equality => exact ⟨.conjunction, rfl⟩
      | relational => exact ⟨.equality, rfl⟩
    have hheight := Precedence.height_tighter hr
    exact ih (.operand (.tighter hr h)) (by omega) (by omega)

/-- An operand is an operation without operators. -/
theorem operation_of_unary (h : Unary ts e) : Operation p ts e :=
  operation_of_height_le (q := .relational) (.operand (.unary rfl h)) (Nat.zero_le _)

/-- More blanks may stand in front. -/
theorem spaced_append {b : List Token} (hb : Blanks b) (h : Spaced k ts s) :
    Spaced k (b ++ ts) s := by
  obtain ⟨hb'⟩ := h
  rw [← List.append_assoc]
  refine .mk fun t ht => ?_
  rcases List.mem_append.1 ht with ht | ht
  · exact hb t ht
  · exact hb' t ht

/-- An operation that some token stands behind. -/
theorem OperationsSound.closed {r : Input} (ih : OperationsSound n) (hn : input.length < n)
    (he : Reads (operation p input) e r) (hnext : Next k r s rest) :
    ∃ ts cs, tokens input = ts ++ cs ++ tokens rest ∧ Operation p ts e ∧ Spaced k cs s := by
  obtain ⟨ts, b, heq₁, hb, hts, -⟩ := ih hn he
  obtain ⟨cs, hcs, heq₂⟩ := hnext.spaced
  refine ⟨ts, b ++ cs, ?_, hts, spaced_append hb hcs⟩
  rw [heq₁, heq₂]
  simp only [List.append_assoc]

/-- What is read as a primary is one, if operations on fewer tokens are. -/
theorem primary_sound (ih : OperationsSound n) (hn : input.length < n)
    (h : Reads (primary t i input) e rest) :
    ∃ ts, tokens input = ts ++ tokens rest ∧ Primary (t :: ts) e := by
  have hbegins := begins_of_reads_primary h
  obtain ⟨k, s⟩ := t
  by_cases hk : IsSigil k
  · rw [reads_primary_sigil_iff hk] at h
    obtain ⟨ts, heq, hts⟩ := afterSigil_sound (fun _ hreads => template_sound hreads)
      (Nat.le_refl _) hk h s
    exact ⟨ts, heq, .reference hts⟩
  -- One case for each kind of token a primary begins with.
  cases k with
  | openBracket =>
    obtain ⟨r, c, he, hclose⟩ := reads_primary_openBracket_iff.1 h
    obtain ⟨ts, cs, heq, hts, hcs⟩ := ih.closed hn he hclose
    exact ⟨ts ++ cs, heq, .bracketed hts hcs⟩
  | quote =>
    obtain ⟨parts, close, hparts, rfl⟩ := reads_primary_quote_iff.1 h
    obtain ⟨ts, heq, hts, hstop⟩ := template_sound hparts
    obtain ⟨⟨k', q'⟩, j⟩ := close
    obtain rfl : k' = .quote := hstop _ rfl
    refine ⟨ts ++ [⟨.quote, q'⟩], ?_, .quoted hts⟩
    simp [heq, tokens_cons]
  | word =>
    by_cases hcall : (Builtin.ofName? s).isSome = true ∧ startsBracket input = true
    · obtain ⟨hf, hbracket⟩ := hcall
      obtain ⟨f, hf⟩ := Option.isSome_iff_exists.1 hf
      cases input with
      | nil => cases hbracket
      | cons u input =>
        obtain ⟨⟨k, b⟩, j⟩ := u
        obtain rfl : k = .openBracket := of_decide_eq_true hbracket
        obtain ⟨a, r, c, ha, hclose, rfl⟩ := (reads_primary_call_iff hf).1 h
        obtain ⟨ts, cs, heq, hts, hcs⟩ := ih.closed ((Nat.lt_succ_self _).trans hn) ha hclose
        refine ⟨⟨.openBracket, b⟩ :: (ts ++ cs), ?_, .call hf hts hcs⟩
        rw [tokens_cons, heq, List.cons_append]
    · have hword : Builtin.ofName? s = none ∨ startsBracket input = false := by
        rw [not_and_or, Bool.not_eq_true, Option.isSome_eq_false_iff, Option.isNone_iff_eq_none,
          Bool.not_eq_true] at hcall
        exact hcall
      obtain ⟨rfl, rfl⟩ := (reads_primary_literal_iff hword).1 h
      exact ⟨[], rfl, .literal⟩
  -- No other token begins a primary, and the references are done above.
  | _ => simp [IsSigil] at hbegins hk

/-- What is read as touching an operand does, if operations on fewer tokens are sound. -/
theorem adjacent_sound (ih : OperationsSound n) (hn : input.length ≤ n)
    (h : Reads (adjacent input) es rest) :
    ∃ ts, tokens input = ts ++ tokens rest ∧ Adjacent ts es := by
  -- On the length: the primary in front is read before the others.
  induction hlength : input.length using Nat.strong_induction_on generalizing input es with
  | h m ihm =>
    by_cases hbegins : ∃ t ∈ input.head?, BeginsAdjacent t.1.kind
    · obtain ⟨⟨t, i⟩, ht, hkind⟩ := hbegins
      obtain ⟨input, rfl⟩ : ∃ r, input = (t, i) :: r := List.head?_eq_some_iff.1 ht
      rw [List.length_cons] at hn hlength
      obtain ⟨e, r, more, he, hmore, rfl⟩ := (reads_adjacent_cons_iff hkind).1 h
      have hr : r.length < input.length + 1 := he.length_lt
      obtain ⟨ts, heq₁, hts⟩ := primary_sound ih hn he
      obtain ⟨us, heq₂, hus⟩ := ihm _ (hlength ▸ hr) (by omega) hmore rfl
      refine ⟨t :: ts ++ us, ?_, .cons hkind hts hus⟩
      rw [tokens_cons, heq₁, heq₂, List.cons_append, List.cons_append, List.append_assoc]
    · push Not at hbegins
      obtain ⟨rfl, rfl⟩ := (reads_adjacent_stop_iff hbegins).1 h
      exact ⟨[], rfl, .nil⟩

/-- What is read as an operand is one, if operations on fewer tokens are sound. -/
theorem unary_sound (ih : OperationsSound n) (hn : input.length ≤ n)
    (h : Reads (unary input) e rest) :
    ∃ ts, tokens input = ts ++ tokens rest ∧ Unary ts e := by
  induction hlength : input.length using Nat.strong_induction_on generalizing input e with
  | h m ihm =>
    cases hskip : skipBlank input with
    | nil => exact absurd h (not_reads_unary hskip)
    | cons u r =>
      obtain ⟨⟨k, s⟩, i⟩ := u
      have hnext : Next k input s r := ⟨i, hskip⟩
      by_cases hnot : k = .not
      -- A negation may stand in front of another one; `ih` is about what stands in brackets only.
      · subst hnot
        obtain ⟨f, hf, rfl⟩ := (reads_unary_not_iff hnext).1 h
        obtain ⟨ns, hns, heq₁⟩ := hnext.spaced
        have hr := hnext.length_lt
        obtain ⟨ts, heq₂, hts⟩ := ihm _ (hlength ▸ hr) (by omega) hf rfl
        exact ⟨ns ++ ts, by rw [heq₁, heq₂, List.append_assoc], .not hns hts⟩
      · obtain ⟨first, r₁, more, hfirst, hmore, rfl⟩ := (reads_unary_primary_iff hskip hnot).1 h
        obtain ⟨b, hb, heq⟩ := exists_blanks input
        have hr := hnext.length_lt
        have hr₁ := hfirst.length_lt
        obtain ⟨ts, heq₁, hts⟩ := primary_sound ih (Nat.lt_of_lt_of_le hr hn) hfirst
        obtain ⟨us, heq₂, hus⟩ := adjacent_sound ih (by omega) hmore
        have htokens : tokens input = b ++ (⟨k, s⟩ :: ts) ++ us ++ tokens rest := by
          rw [heq, hskip, tokens_cons, heq₁, heq₂]
          simp
        -- A single primary stands for itself.
        cases hus with
        | nil => exact ⟨_, by rw [htokens, List.append_nil], .single hb hts⟩
        | cons hkind he hes => exact ⟨_, htokens, .joined hb hts (.cons hkind he hes)⟩

/-- What is read as a right operand is one, and no operator that it may hold is left behind it, if
operations on fewer tokens are sound. -/
theorem rightOperand_sound (ih : OperationsSound n) (hn : input.length < n)
    (h : Reads (rightOperand p input) e rest) :
    ∃ ts b, tokens input = ts ++ b ++ tokens rest ∧ Blanks b ∧ Operand p ts e ∧
      LooseNext p.height rest := by
  cases hp : p.tighter with
  | some q =>
    rw [rightOperand_of_tighter hp] at h
    obtain ⟨ts, b, heq, hb, hts, hloose⟩ := ih hn h
    rw [Precedence.height_tighter hp] at hloose
    exact ⟨ts, b, heq, hb, .tighter hp hts, hloose⟩
  | none =>
    rw [rightOperand_of_tightest hp] at h
    obtain ⟨ts, heq, hts⟩ := unary_sound ih (Nat.le_of_lt hn) h
    -- Only the level that binds tightest has no tighter one.
    have hheight : p.height = 0 := by
      cases p <;> cases hp
      rfl
    refine ⟨ts, [], by rw [List.append_nil, heq], by simp [Blanks], .unary hp hts, ?_⟩
    rw [hheight]
    exact fun _ _ => Nat.zero_le _

/-- Operators behind what was read so far are put on top of it. What was read so far is of a level
`q`, the next operator is not tighter, and the blank tokens `b` in between are still to be told. -/
theorem operations_sound {b : List Token} (ih : OperationsSound n) (hn : input.length ≤ n)
    (hl : Operation q ts l) (hq : q.height ≤ p.height) (hloose : LooseNext q.height input)
    (hb : Blanks b) (h : Reads (operations p l input) e rest) :
    ∃ us b', b ++ tokens input = us ++ b' ++ tokens rest ∧ Blanks b' ∧ Operation p (ts ++ us) e ∧
      LooseNext (p.height + 1) rest := by
  induction hlength : input.length using Nat.strong_induction_on
    generalizing input q ts l b with
  -- Each operator makes what was read so far one operation of its own level.
  | h m ihm =>
    rcases reads_operations_iff.1 h with
      ⟨hnone, rfl, rfl⟩ | ⟨k, s, r, op, rhs, r', hnext, hop, hle, hrhs, he⟩
    · obtain ⟨b', hb', heq⟩ := exists_blanks input
      refine ⟨[], b ++ b', by rw [heq]; simp, List.forall_mem_append.2 ⟨hb, hb'⟩, ?_, ?_⟩
      · rw [List.append_nil]
        exact operation_of_height_le hl hq
      · intro k s rest p' op hnext hop
        -- An operator that `p` may hold would have been read.
        by_contra hlt
        obtain ⟨-, rfl⟩ := infix_iff.1 hop
        have hsome := operatorAt?_eq_some_iff (p := p).2 ⟨k, s, hnext, hop, by omega⟩
        rw [skipBlank_skipBlank, hnone] at hsome
        cases hsome
    · obtain ⟨os, hos, heq₁⟩ := hnext.spaced
      have hr := hnext.length_lt
      have hr' := hrhs.length_lt
      obtain ⟨us, b', heq₂, hb', hus, hloose'⟩ :=
        rightOperand_sound ih (Nat.lt_of_lt_of_le hr hn) hrhs
      -- The operator is not tighter than what was read, which is its left operand therefore.
      have hlhs : Operation op.precedence ts l := operation_of_height_le hl (hloose hnext hop)
      obtain ⟨vs, b'', heq₃, hb'', hvs, hend⟩ := ihm r'.length (by omega) (by omega)
        (.binary hlhs hop (spaced_append hb hos) hus) hle hloose' hb' he rfl
      refine ⟨b ++ os ++ us ++ vs, b'', ?_, hb'', ?_, hend⟩
      · rw [heq₁, heq₂]
        simp only [List.append_assoc] at heq₃ ⊢
        rw [heq₃]
      · simpa only [List.append_assoc] using hvs

/-- Whatever is read as an operation is spelled as one. -/
theorem operationsSound (n : Nat) : OperationsSound n := by
  induction n with
  | zero => exact fun hn => absurd hn (Nat.not_lt_zero _)
  -- The operands are shorter than what is read, so their own operations are sound by `ih`.
  | succ n ih =>
    intro p input e rest hn h
    obtain ⟨l, r, hl, he⟩ := reads_operation_iff.1 h
    have hr := hl.length_lt
    obtain ⟨ts, heq₁, hts⟩ := unary_sound ih (Nat.le_of_lt_succ hn) hl
    obtain ⟨us, b, heq₂, hb, hus, hend⟩ := operations_sound (b := []) ih (by omega)
      (operation_of_unary (p := .relational) hts) (Nat.zero_le _) (fun _ _ => Nat.zero_le _)
      (by simp [Blanks]) he
    refine ⟨ts ++ us, b, ?_, hb, hus, hend⟩
    rw [heq₁, ← List.nil_append (tokens r), heq₂]
    simp only [List.append_assoc]

/-- What is read as an operation is one. -/
theorem operation_sound (h : Reads (operation p input) e rest) :
    ∃ ts b, tokens input = ts ++ b ++ tokens rest ∧ Blanks b ∧ Operation p ts e := by
  obtain ⟨ts, b, heq, hb, hts, -⟩ := operationsSound _ (Nat.lt_succ_self _) h
  exact ⟨ts, b, heq, hb, hts⟩

end Operations

/-! ## Conditions -/

/-- Elements behind an operation, with blank tokens `b` in between. -/
theorem elements_sound {b : List Token} (hb : Blanks b) (h : Reads (elements input) es rest) :
    ∃ ts b', b ++ tokens input = ts ++ b' ++ tokens rest ∧ Blanks b' ∧ Elements ts es := by
  -- On the length. The blanks `b` are those that the element in front left unread; they belong to
  -- the next semicolon or to the end.
  induction hlength : input.length using Nat.strong_induction_on generalizing input es b with
  | h m ihm =>
    by_cases hsemicolon : ∃ t ∈ (skipBlank input).head?, t.1.kind = .semicolon
    · obtain ⟨⟨⟨k, s⟩, i⟩, ht, rfl⟩ := hsemicolon
      obtain ⟨r, hr⟩ := List.head?_eq_some_iff.1 ht
      have hnext : Next .semicolon input s r := ⟨i, hr⟩
      obtain ⟨e, r₁, more, he, hmore, rfl⟩ := (reads_elements_cons_iff hnext).1 h
      obtain ⟨ss, hss, heq₁⟩ := hnext.spaced
      obtain ⟨ts, b', heq₂, hb', hts⟩ := operation_sound he
      have hr := hnext.length_lt
      have hr₁ := he.length_lt
      obtain ⟨us, b'', heq₃, hb'', hus⟩ := ihm r₁.length (by omega) hb' hmore rfl
      refine ⟨b ++ ss ++ ts ++ us, b'', ?_, hb'', .cons (spaced_append hb hss) hts hus⟩
      rw [heq₁, heq₂]
      simp only [List.append_assoc] at heq₃ ⊢
      rw [heq₃]
    · push Not at hsemicolon
      obtain ⟨rfl, rfl⟩ := (reads_elements_stop_iff hsemicolon).1 h
      obtain ⟨b', hb', heq⟩ := exists_blanks input
      exact ⟨[], b ++ b', by rw [heq]; simp, List.forall_mem_append.2 ⟨hb, hb'⟩, .nil⟩

/-- What is read as a condition is spelled as one. -/
theorem condition_of_ofTokens (h : ofTokens ts = .ok e) : Condition ts e := by
  have htokens := tokens_zipIdx ts
  rcases ofTokens_eq_ok_iff.1 h with ⟨hskip, rfl⟩ | ⟨first, r, more, hfirst, hmore, rfl⟩
  · rw [skipBlank_eq_nil_iff, htokens] at hskip
    exact .blank hskip
  · obtain ⟨us, b, heq₁, hb, hus⟩ := operation_sound hfirst
    -- The blanks that the first element left are handed on to the others.
    obtain ⟨vs, b', heq₂, hb', hvs⟩ := elements_sound hb hmore
    have heq : ts = us ++ vs ++ b' := by
      rw [← htokens, heq₁]
      simp only [List.append_assoc] at heq₂ ⊢
      rw [heq₂]
      simp [tokens]
    rw [heq]
    cases hvs with
    | nil => rw [List.append_nil]; exact .single hus hb'
    | cons hss hts hes => exact .list hus (.cons hss hts hes) hb'

end BuildEngine.Expr
