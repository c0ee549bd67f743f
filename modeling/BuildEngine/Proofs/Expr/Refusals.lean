import BuildEngine.Proofs.Expr.Quotes
import BuildEngine.Proofs.Fallible

/-!
# Where refused conditions are wrong

An error that reports a token says where it stands (`errors_point_at_tokens`). A leftover or
misplaced token stands at the position. What is found in place of something expected stands there as
well, or behind the blank tokens that begin there: some readers note the position before they skip
blank tokens (`IsLoose`). A quote that is reported opens and is never closed; that of a projection
stands behind blank tokens likewise.

Readers are followed from left to right. An input stands behind the tokens that were read
(`Behind`), and the quotes among these are balanced between two operands (`Outside`). What a reader
keeps of this and what its errors say is shown together (`Behaved`).
-/

namespace BuildEngine.Expr

open Grammar

variable {α β : Type} {m n i : Nat} {a : α} {input rest r : Input} {e l : Expr} {s : String}
  {parts es : List Expr} {all before ts : List Token} {k stop : TokenKind} {t : Token}
  {err : ParseError} {what : Expectation} {accepted : TokenKind → Bool} {p : Precedence}

/-! ## What errors say -/

/-- The expectations that are looked for behind blank tokens, but reported in front of them. -/
def IsLoose (what : Expectation) : Prop :=
  what ∈ [.name, .closingBracketOfReference, .quoteAfterArrow, .closingBracketOfProjection]

instance : Decidable (IsLoose what) :=
  inferInstanceAs (Decidable (_ ∈ _))

/-- What an error says about the tokens of a condition. -/
def PointsAt (all : List Token) : ParseError → Prop
  | .expected what found position =>
    ∃ before b t after, all = before ++ b ++ t :: after ∧ before.length = position ∧ Blanks b ∧
      t.text = found ∧
        if IsLoose what then t.kind ≠ .blank ∧ ∃ u ∈ before.getLast?, u.kind ≠ .blank else b = []
  | .unexpectedToken text position => ∃ t, all[position]? = some t ∧ t.text = text
  | .unterminatedQuote position =>
    ∃ before b q after, all = before ++ b ++ ⟨.quote, q⟩ :: after ∧ before.length = position ∧
      Blanks b ∧ Opens (before ++ b) ∧ Unclosed after ∧
        (b = [] ∨ ∃ u ∈ before.getLast?, u.kind = .arrow)
  | .unexpectedEnd _ => True

/-! ## Where inputs stand -/

/-- An input stands behind some tokens of a condition. -/
structure Behind (all before : List Token) (input : Input) : Prop where
  eq_append : all = before ++ tokens input
  indexed : input = (tokens input).zipIdx before.length

/-- At the start an input stands behind nothing. -/
theorem behind_zipIdx (all : List Token) : Behind all [] all.zipIdx where
  eq_append := by rw [tokens_zipIdx, List.nil_append]
  indexed := by rw [tokens_zipIdx, List.length_nil]

/-- The tokens that are read stand in front of the rest. -/
theorem Behind.of_suffix (h : Behind all before input) (hsuffix : rest <:+ input)
    (htokens : tokens input = ts ++ tokens rest) : Behind all (before ++ ts) rest := by
  obtain ⟨used, rfl⟩ := hsuffix
  have happend : tokens (used ++ rest) = tokens used ++ tokens rest := List.map_append
  obtain rfl : ts = tokens used := List.append_cancel_right (htokens.symm.trans happend)
  have hindexed := h.indexed
  rw [happend, List.zipIdx_append] at hindexed
  refine ⟨by rw [h.eq_append, happend, List.append_assoc], ?_⟩
  rw [List.length_append]
  refine (List.append_inj hindexed ?_).2
  rw [List.length_zipIdx, tokens, List.length_map]

/-- A token is numbered by those before it, and stands before the rest. -/
theorem Behind.cons (h : Behind all before ((t, i) :: input)) :
    i = before.length ∧ Behind all (before ++ [t]) input := by
  refine ⟨?_, h.of_suffix (List.suffix_cons _ _) rfl⟩
  have hindexed := h.indexed
  rw [tokens_cons, List.zipIdx_cons, List.cons.injEq, Prod.mk.injEq] at hindexed
  exact hindexed.1.2

/-- The first token of an input is the one that its number says. -/
theorem Behind.getElem? (h : Behind all before ((t, i) :: input)) : all[i]? = some t := by
  rw [h.cons.1, h.eq_append, tokens_cons]
  simp

/-- Skipping blanks leaves an end of the input. -/
theorem suffix_skipBlank (input : Input) : skipBlank input <:+ input :=
  List.dropWhile_suffix _

/-- What comes behind blanks is not blank. -/
theorem kind_of_skipBlank (h : skipBlank input = (t, i) :: rest) : t.kind ≠ .blank := by
  have hhead := List.head?_dropWhile_not (fun t : Token × Nat => decide (t.1.kind = .blank)) input
  unfold skipBlank at h
  rw [h] at hhead
  simpa using hhead

/-- Behind blanks an input stands behind these as well. -/
theorem Behind.skipBlank (h : Behind all before input) :
    ∃ b, Blanks b ∧ Behind all (before ++ b) (skipBlank input) := by
  obtain ⟨b, hb, htokens⟩ := exists_blanks input
  exact ⟨b, hb, h.of_suffix (suffix_skipBlank input) htokens⟩

/-- The rest is an end of the input. -/
theorem Next.suffix (h : Next k input s rest) : rest <:+ input := by
  obtain ⟨i, h⟩ := h
  exact (List.suffix_cons _ _).trans (h ▸ suffix_skipBlank input)

/-- Behind the next token an input stands behind that one and the blanks before it. -/
theorem Behind.next (h : Behind all before input) (hnext : Next k input s rest) :
    ∃ ts, Spaced k ts s ∧ Behind all (before ++ ts) rest := by
  obtain ⟨ts, hts, htokens⟩ := hnext.spaced
  exact ⟨ts, hts, h.of_suffix hnext.suffix htokens⟩

/-- The position is that of the first token of the input. -/
theorem Behind.position_eq (h : Behind all before input) (hne : input ≠ []) :
    position input = before.length := by
  cases input with
  | nil => exact absurd rfl hne
  | cons t input => exact h.cons.1

/-! ## Single tokens -/

/-- An error of two readers one after the other is that of the first one or of the second one. -/
theorem reading_bind_eq_error {x : Reading α m} {f : Read α m → Reading β n}
    (h : x >>= f = .error err) :
    x = .error err ∨ ∃ a r, ∃ h : r.length < m, Reads x a r ∧ f ⟨a, r, h⟩ = .error err := by
  rcases bind_eq_error_iff.1 h with h | ⟨⟨a, r, hlt⟩, hread, h⟩
  · exact .inl h
  · exact .inr ⟨a, r, hlt, ⟨hlt, hread⟩, h⟩

/-- What is expected is refused at the end, or with the next token, and pointed at in front of
blanks. -/
theorem expect_eq_error (h : expect accepted what input = .error err) :
    err = .unexpectedEnd what ∨ ∃ t i rest, skipBlank input = (t, i) :: rest ∧
      err = .expected what t.text (position input) := by
  unfold expect at h
  split at h
  · cases h
    exact .inl rfl
  · next t i rest hskip =>
    split at h
    · cases h
    · cases h
      exact .inr ⟨t, i, rest, hskip, rfl⟩

/-- Where something comes behind blanks there is something. -/
theorem ne_nil_of_skipBlank (h : skipBlank input = (t, i) :: rest) : input ≠ [] := by
  rintro rfl
  cases h

/-- Behind a token that is not blank the position is where the blank tokens begin. -/
theorem pointsAt_of_loose (hbehind : Behind all before input) (hloose : IsLoose what)
    (hlast : ∃ u ∈ before.getLast?, u.kind ≠ .blank)
    (h : expect accepted what input = .error err) : PointsAt all err := by
  rcases expect_eq_error h with rfl | ⟨t, i, rest, hskip, rfl⟩
  · trivial
  · obtain ⟨b, hb, htokens⟩ := exists_blanks input
    refine ⟨before, b, t, tokens rest, ?_, (hbehind.position_eq (ne_nil_of_skipBlank hskip)).symm,
      hb, rfl, ?_⟩
    · rw [hbehind.eq_append, htokens, hskip, tokens_cons, List.append_assoc]
    · rw [if_pos hloose]
      exact ⟨kind_of_skipBlank hskip, hlast⟩

/-- Where no blank tokens come next the position is that of the token. -/
theorem pointsAt_of_exact (hbehind : Behind all before input) (hexact : ¬ IsLoose what)
    (hskip : skipBlank input = input) (h : expect accepted what input = .error err) :
    PointsAt all err := by
  rcases expect_eq_error h with rfl | ⟨t, i, rest, hinput, rfl⟩
  · trivial
  · refine ⟨before, [], t, tokens rest, ?_,
      (hbehind.position_eq (ne_nil_of_skipBlank hinput)).symm, by simp [Blanks], rfl, ?_⟩
    · rw [hbehind.eq_append, ← hskip, hinput, tokens_cons, List.append_nil]
    · rw [if_neg hexact]

/-- A reference that does not open points at what stands there. -/
theorem pointsAt_of_openReference (hbehind : Behind all before input)
    (h : openReference input = .error err) : PointsAt all err := by
  unfold openReference at h
  split at h
  · cases h
    trivial
  · next t i rest =>
    split at h
    · cases h
    · cases h
      refine ⟨before, [], t, tokens rest, ?_, hbehind.cons.1.symm, by simp [Blanks], rfl, ?_⟩
      · rw [hbehind.eq_append, tokens_cons, List.append_nil]
      · rw [if_neg (by decide)]

/-! ## References and templates -/

/-- A name is not blank. -/
theorem ne_blank_of_isNameKind (hk : isNameKind k = true) : k ≠ .blank := by
  rintro rfl
  cases hk

/-- Behind a token with blanks in front of it, the last token is not blank. -/
theorem exists_getLast?_of_spaced (h : Spaced k ts s) (hk : k ≠ .blank) :
    ∃ u ∈ (before ++ ts).getLast?, u.kind ≠ .blank := by
  refine ⟨⟨k, s⟩, ?_, hk⟩
  rw [List.getLast?_append, getLast?_of_spaced h]
  rfl

/-- Behind a token that is not blank, the last token is not blank. -/
theorem exists_getLast?_concat (before : List Token) (hk : t.kind ≠ .blank) :
    ∃ u ∈ (before ++ [t]).getLast?, u.kind ≠ .blank :=
  ⟨t, List.getLast?_concat, hk⟩

/-- A reference that is refused points at what is wrong. -/
theorem pointsAt_of_reference {make : String → Expr} (hbehind : Behind all before input)
    (h : reference make input = .error err) : PointsAt all err := by
  unfold reference at h
  -- The bracket is missing where the input starts; everything else is missing behind a token that
  -- was read, and `pointsAt_of_loose` finds the place of what stands there.
  rcases reading_bind_eq_error h with h | ⟨_, r₁, _, hopen, h⟩
  · exact pointsAt_of_openReference hbehind h
  obtain ⟨o, i, rfl⟩ := reads_openReference_iff.1 hopen
  have hr₁ := hbehind.cons.2
  rcases reading_bind_eq_error h with h | ⟨name, r₂, _, hname, h⟩
  · exact pointsAt_of_loose hr₁ (by decide) (exists_getLast?_concat before (by simp)) h
  obtain ⟨k, hk, hname⟩ := reads_expect_iff.1 hname
  obtain ⟨ns, hns, hr₂⟩ := hr₁.next hname
  rcases reading_bind_eq_error h with h | ⟨_, _, _, _, h⟩
  · exact pointsAt_of_loose hr₂ (by decide)
      (exists_getLast?_of_spaced hns (ne_blank_of_isNameKind hk)) h
  · cases h

/-- What is left behind a reference is the end of the input, if that is so of templates. -/
theorem suffix_of_reads_afterSigil
    (ih : ∀ {input rest parts}, input.length < n → Reads (template .quote input) parts rest →
      rest <:+ input)
    (hlength : input.length ≤ n) (hk : IsSigil k) (h : Reads (afterSigil k input) e rest) :
    rest <:+ input := by
  rcases hk with rfl | rfl | rfl
  -- `$(…)` and `%(…)` have one shape: a name and the closing bracket behind it.
  · obtain ⟨o, i, r₁, k, name, r₂, c, rfl, hk, hname, hclose, rfl⟩ := reads_reference_iff.1 h
    exact (hclose.suffix.trans hname.suffix).trans (List.suffix_cons _ _)
  · obtain ⟨o, i, r₁, k, name, r₂, c, rfl, hk, hname, hclose, rfl⟩ := reads_reference_iff.1 h
    exact (hclose.suffix.trans hname.suffix).trans (List.suffix_cons _ _)
  -- `@(…)` may hold an arrow and a quoted template, which is what the hypothesis is about.
  · obtain ⟨o, i, r₁, k, name, r₂, rfl, hk, hname, h⟩ := reads_itemReference_iff.1 h
    refine .trans ?_ (hname.suffix.trans (List.suffix_cons _ _))
    rcases h with ⟨c, hclose, -⟩ |
      ⟨a, r₃, q, r₄, parts, close, r₅, c, harrow, hquote, hparts, hclose, -⟩
    · exact hclose.suffix
    · have hlt : r₄.length < n := by
        have := hname.length_lt
        have := harrow.length_lt
        have := hquote.length_lt
        simp only [List.length_cons] at hlength
        omega
      have hclosed := (List.suffix_cons close r₅).trans (ih hlt hparts)
      exact ((hclose.suffix.trans hclosed).trans hquote.suffix).trans harrow.suffix

/-- What a template leaves is an end of the input. -/
theorem suffix_of_reads_template (h : Reads (template stop input) parts rest) :
    rest <:+ input := by
  -- On the length: behind a reference the input is shorter by more than one token.
  induction hn : input.length using Nat.strong_induction_on generalizing stop input parts rest with
  | h n ih =>
    cases input with
    | nil => exact (reads_template_nil_iff.1 h).2 ▸ List.suffix_refl _
    | cons u input =>
      obtain ⟨t, i⟩ := u
      subst hn
      by_cases hstop : t.kind = stop
      · exact ((reads_template_stop_iff hstop).1 h).2 ▸ List.suffix_refl _
      -- A reference is read as a whole first, and the template goes on behind its bracket.
      by_cases href : IsSigil t.kind ∧ startsBracket input = true
      · obtain ⟨e, r, more, he, hmore, -⟩ :=
          (reads_template_reference_iff hstop href.1 href.2).1 h
        have hr : r.length < input.length := he.length_lt
        have hsuffix := suffix_of_reads_afterSigil (n := input.length)
          (fun hlt hreads => ih _ (hlt.trans (Nat.lt_succ_self _)) hreads rfl) (Nat.le_refl _)
          href.1 he
        exact ((ih _ (hr.trans (Nat.lt_succ_self _)) hmore rfl).trans hsuffix).trans
          (List.suffix_cons _ _)
      · obtain ⟨more, hmore, -⟩ := (reads_template_text_iff hstop href).1 h
        exact (ih _ (Nat.lt_succ_self _) hmore rfl).trans (List.suffix_cons _ _)

/-- What stands behind a sigil is read as a reference. -/
theorem exists_of_reads_afterSigil (hk : IsSigil k) (h : Reads (afterSigil k input) e rest)
    (s : String) : ∃ ts, tokens input = ts ++ tokens rest ∧ rest <:+ input ∧
      Reference (⟨k, s⟩ :: ts) e := by
  obtain ⟨ts, htokens, hts⟩ := afterSigil_sound (fun _ hreads => template_sound hreads)
    (Nat.le_refl _) hk h s
  exact ⟨ts, htokens, suffix_of_reads_afterSigil (fun _ hreads => suffix_of_reads_template hreads)
    (Nat.le_refl _) hk h, hts⟩

/-- Behind a sigil with a bracket, a template is refused where the reference is, or behind it. -/
theorem template_reference_eq_error (hstop : t.kind ≠ stop) (hsigil : IsSigil t.kind)
    (hbracket : startsBracket input = true)
    (h : template stop ((t, i) :: input) = .error err) :
    afterSigil t.kind input = .error err ∨
      ∃ e r, Reads (afterSigil t.kind input) e r ∧ template stop r = .error err := by
  obtain ⟨k, s⟩ := t
  rw [template, if_neg hstop] at h
  -- The three kinds take the three branches of `template`, which read alike.
  rcases hsigil with rfl | rfl | rfl
  all_goals
    simp only [hbracket, reduceCtorEq, decide_true, decide_false, Bool.and_true, if_true,
      Bool.false_eq_true, if_false] at h
    rcases reading_bind_eq_error h with h | ⟨e, r, _, he, h⟩
    · exact .inl h
    rcases reading_bind_eq_error h with h | ⟨_, _, _, _, h⟩
    · exact .inr ⟨e, r, he, h⟩
    · cases h

/-- A template that begins with text is refused for what comes behind it. -/
theorem template_text_eq_error (hstop : t.kind ≠ stop)
    (htext : ¬ (IsSigil t.kind ∧ startsBracket input = true))
    (h : template stop ((t, i) :: input) = .error err) : template stop input = .error err := by
  rw [template, if_neg hstop] at h
  -- No branch for a reference is taken: the token is no sigil, or no bracket follows it.
  have hno (k : TokenKind) (hk : IsSigil k) :
      ¬ (decide (t.kind = k) && startsBracket input) = true := by
    intro h
    rw [Bool.and_eq_true, decide_eq_true_eq] at h
    exact htext ⟨h.1 ▸ hk, h.2⟩
  rw [if_neg (hno .dollar (.inl rfl)), if_neg (hno .percent (.inr (.inl rfl))),
    if_neg (hno .at (.inr (.inr rfl)))] at h
  rcases reading_bind_eq_error h with h | ⟨_, _, _, _, h⟩
  · exact h
  · cases h

/-- A template is refused where one of its references is, with a template in front of that. -/
theorem template_eq_error (h : template stop input = .error err) :
    ∃ ts parts t i rest, tokens input = ts ++ t :: tokens rest ∧ (t, i) :: rest <:+ input ∧
      Template stop ts parts ∧ IsSigil t.kind ∧ afterSigil t.kind rest = .error err := by
  -- On the length again. A text and a reference that are read come in front of what the rest of the
  -- template gives; only a reference that is refused ends the search.
  induction hn : input.length using Nat.strong_induction_on generalizing input with
  | h n ih =>
    have hempty : Template stop [] [] := .text ⟨by simp, .nil⟩
    cases input with
    | nil =>
      rw [template] at h
      cases h
    | cons u input =>
      obtain ⟨t, i⟩ := u
      subst hn
      by_cases hstop : t.kind = stop
      · rw [template, if_pos hstop] at h
        cases h
      by_cases href : IsSigil t.kind ∧ startsBracket input = true
      · rcases template_reference_eq_error hstop href.1 href.2 h with h | ⟨e, r, he, h⟩
        · exact ⟨[], [], t, i, input, rfl, List.suffix_refl _, hempty, href.1, h⟩
        · have hr : r.length < input.length := he.length_lt
          obtain ⟨rs, htokens, hsuffix, hrs⟩ := exists_of_reads_afterSigil href.1 he t.text
          obtain ⟨us, parts, t', i', rest, htokens', hsuffix', hus, hsigil, h⟩ :=
            ih _ (hr.trans (Nat.lt_succ_self _)) h rfl
          refine ⟨[] ++ (t :: rs) ++ us, _, t', i', rest, ?_,
            (hsuffix'.trans hsuffix).trans (List.suffix_cons _ _),
            .reference ⟨by simp, .nil⟩ hrs hus, hsigil, h⟩
          simp [tokens_cons, htokens, htokens']
      -- The text belongs to the piece in front, unless it is a sigil before a bracket, which
      -- `htext` rules out of this branch.
      · have h := template_text_eq_error hstop href h
        obtain ⟨us, parts, t', i', rest, htokens, hsuffix, hus, hsigil, h⟩ :=
          ih _ (Nat.lt_succ_self _) h rfl
        refine ⟨t :: us, _, t', i', rest, by rw [tokens_cons, htokens, List.cons_append],
          hsuffix.trans (List.suffix_cons _ _), template_cons hus hstop ?_, hsigil, h⟩
        intro hsigil' u hu hbracket
        refine href ⟨hsigil', startsBracket_iff.2 ⟨u, ?_, hbracket⟩⟩
        cases us with
        | nil => cases hu
        | cons v us =>
          rw [htokens]
          exact hu

/-- Behind these tokens, which a sigil ends, a quote behind the arrow of a projection opens. -/
def OpensBehind (before : List Token) : Prop :=
  ∀ {ns as b : List Token} {o n a : String}, Name ns n → Spaced .arrow as a → Blanks b →
    Opens (before ++ ⟨.openBracket, o⟩ :: (ns ++ as ++ b))

/-- A quoted text that is refused points at what is wrong in it, if its references do so. -/
theorem pointsAt_of_template {q : String}
    (ih : ∀ {k input before}, input.length < n → IsSigil k → Behind all before input →
      (k = .at → OpensBehind before) → afterSigil k input = .error err → PointsAt all err)
    (hlength : input.length ≤ n) (hopens : Opens before)
    (hbehind : Behind all (before ++ [⟨.quote, q⟩]) input)
    (h : template .quote input = .error err) : PointsAt all err := by
  -- The template is refused at one of its references, which is read further inside of it.
  obtain ⟨us, parts, t, i, rest, htokens, hsuffix, hus, hsigil, h⟩ := template_eq_error h
  have hlt : rest.length < n := by
    have := hsuffix.length_le
    rw [List.length_cons] at this
    omega
  have hrest : Behind all (before ++ ⟨.quote, q⟩ :: (us ++ [t])) rest := by
    have := hbehind.of_suffix ((List.suffix_cons _ _).trans hsuffix)
      (htokens.trans (List.append_cons us t _))
    rwa [List.append_assoc, List.singleton_append] at this
  refine ih hlt hsigil hrest ?_ h
  -- The reference stands in an open quote, so an open projection of its own does too.
  intro hat ns as b o n a hns has hb
  obtain ⟨k, s⟩ := t
  obtain rfl : k = .at := hat
  have := hopens.inside (q := q) (s := s) (o := o) hus hns has hb
  simpa only [List.append_assoc, List.cons_append, List.nil_append] using this

/-- Where a projection is refused behind its arrow. -/
def RefusedBehindArrow (input : Input) (err : ParseError) : Prop :=
  expect (· = .quote) .quoteAfterArrow input = .error err ∨
    ∃ q r, Next .quote input q r ∧ (template .quote r = .error err ∨
      ∃ parts r', Reads (template .quote r) parts r' ∧
        (r' = [] ∧ err = .unterminatedQuote (position input) ∨ ∃ close r'', r' = close :: r'' ∧
          expect (· = .closeBracket) .closingBracketOfProjection r'' = .error err))

/-- Where an item reference is refused behind its name. -/
def RefusedBehindName (input : Input) (err : ParseError) : Prop :=
  err = .unexpectedEnd .closingBracketOfItems ∨
    expect (· = .closeBracket) .closingBracketOfItems (skipBlank input) = .error err ∨
      ∃ a r, Next .arrow input a r ∧ RefusedBehindArrow r err

/-- Where a reference to items is refused: at its bracket, at its name, or behind it. -/
theorem itemReference_eq_error (h : itemReference input = .error err) :
    openReference input = .error err ∨ ∃ o i r₁, input = (⟨.openBracket, o⟩, i) :: r₁ ∧
      (expect isNameKind .name r₁ = .error err ∨
        ∃ k n r₂, isNameKind k = true ∧ Next k r₁ n r₂ ∧ RefusedBehindName r₂ err) := by
  rw [itemReference] at h
  rcases reading_bind_eq_error h with h | ⟨_, r₁, _, hopen, h⟩
  · exact .inl h
  obtain ⟨o, i, rfl⟩ := reads_openReference_iff.1 hopen
  refine .inr ⟨o, i, r₁, rfl, ?_⟩
  -- One case for each token the reference asks for: bracket, name, arrow, quote, the template, the
  -- closing quote and the closing bracket, in this order.
  rcases reading_bind_eq_error h with h | ⟨n, r₂, _, hname, h⟩
  · exact .inl h
  obtain ⟨k, hk, hname⟩ := reads_expect_iff.1 hname
  refine .inr ⟨k, n, r₂, hk, hname, ?_⟩
  dsimp only at h
  split at h
  · next t j r₃ hskip =>
    obtain ⟨k', a⟩ := t
    dsimp only at h
    split at h
    · next hkind =>
      obtain rfl : k' = .arrow := hkind
      refine .inr (.inr ⟨a, r₃, ⟨j, hskip⟩, ?_⟩)
      rcases reading_bind_eq_error h with h | ⟨q, r₄, _, hquote, h⟩
      · exact .inl h
      obtain ⟨k', hk', hquote⟩ := reads_expect_iff.1 hquote
      obtain rfl : k' = .quote := of_decide_eq_true hk'
      refine .inr ⟨q, r₄, hquote, ?_⟩
      rcases reading_bind_eq_error h with h | ⟨parts, r₅, _, hparts, h⟩
      · exact .inl h
      refine .inr ⟨parts, r₅, hparts, ?_⟩
      dsimp only at h
      split at h
      · cases h
        exact .inl ⟨rfl, rfl⟩
      · next close r₆ _ _ =>
        rcases reading_bind_eq_error h with h | ⟨_, _, _, _, h⟩
        · exact .inr ⟨close, r₆, rfl, h⟩
        · cases h
    -- Without an arrow the reference has to close here.
    · rcases reading_bind_eq_error h with h | ⟨_, _, _, _, h⟩
      · exact .inr (.inl h)
      · cases h
  · cases h
    exact .inl rfl

/-- A projection that is refused behind its arrow points at what is wrong. -/
theorem pointsAt_of_refusedBehindArrow
    (ih : ∀ {q input before}, input.length < n → Opens before →
      Behind all (before ++ [⟨.quote, q⟩]) input → template .quote input = .error err →
        PointsAt all err)
    (hlength : input.length ≤ n) (hbehind : Behind all before input)
    (hlast : ∃ u ∈ before.getLast?, u.kind = .arrow)
    (hopens : ∀ {b}, Blanks b → Opens (before ++ b)) (h : RefusedBehindArrow input err) :
    PointsAt all err := by
  obtain ⟨u, hu, harrow⟩ := hlast
  -- The quote is missing, the template is refused, the quote is not closed, or no bracket follows
  -- it.
  rcases h with h | ⟨q, r, hquote, h⟩
  · exact pointsAt_of_loose hbehind (by decide) ⟨u, hu, by rw [harrow]; decide⟩ h
  have hlt := hquote.length_lt
  obtain ⟨j, hskip⟩ := hquote
  obtain ⟨qs, ⟨hb⟩, hr⟩ := hbehind.next ⟨j, hskip⟩
  rename_i b
  rw [← List.append_assoc] at hr
  rcases h with h | ⟨parts, r', hparts, h⟩
  · exact ih (Nat.lt_of_lt_of_le hlt hlength) (hopens hb) hr h
  obtain ⟨ts, htokens, hts, hend⟩ := template_sound hparts
  rcases h with ⟨rfl, rfl⟩ | ⟨⟨close, j⟩, r'', rfl, h⟩
  · -- What follows the quote is a template to the end.
    have hquoted : tokens r = ts := htokens.trans (List.append_nil ts)
    refine ⟨before, b, q, tokens r, ?_, (hbehind.position_eq (ne_nil_of_skipBlank hskip)).symm, hb,
      hopens hb, hquoted ▸ unclosed_of_template hts, .inr ⟨u, hu, harrow⟩⟩
    rw [hr.eq_append, List.append_assoc, List.singleton_append]
  · have hclose : Behind all _ r'' :=
      (hr.of_suffix (suffix_of_reads_template hparts) htokens).cons.2
    have hkind : close.kind = .quote := hend _ rfl
    exact pointsAt_of_loose hclose (by decide)
      (exists_getLast?_concat _ (by rw [hkind]; decide)) h

/-- A reference to items that is refused points at what is wrong. -/
theorem pointsAt_of_itemReference
    (ih : ∀ {q input before}, input.length < n → Opens before →
      Behind all (before ++ [⟨.quote, q⟩]) input → template .quote input = .error err →
        PointsAt all err)
    (hlength : input.length ≤ n) (hopens : OpensBehind before) (hbehind : Behind all before input)
    (herr : itemReference input = .error err) : PointsAt all err := by
  rcases itemReference_eq_error herr with h | ⟨o, i, r₁, rfl, h⟩
  · exact pointsAt_of_openReference hbehind h
  have hr₁ := hbehind.cons.2
  -- The name is missing, or something behind it.
  rcases h with h | ⟨k, name, r₂, hk, hname, h⟩
  · exact pointsAt_of_loose hr₁ (by decide) (exists_getLast?_concat before (by simp)) h
  obtain ⟨ns, hns, hr₂⟩ := hr₁.next hname
  rcases h with rfl | h | ⟨a, r₃, harrow, h⟩
  · exact True.intro
  · -- The bracket is looked for behind the blank tokens.
    obtain ⟨b, -, hclose⟩ := hr₂.skipBlank
    exact pointsAt_of_exact hclose (by decide) (skipBlank_skipBlank r₂) h
  -- Behind the arrow: what is looked for there stands behind an arrow token, and a projection that
  -- is left open was opened at `o`.
  · obtain ⟨as, has, hr₃⟩ := hr₂.next harrow
    have hlt : r₃.length ≤ n := by
      have := hname.length_lt
      have := harrow.length_lt
      rw [List.length_cons] at hlength
      omega
    refine pointsAt_of_refusedBehindArrow ih hlt hr₃ ⟨⟨.arrow, a⟩, ?_, rfl⟩ ?_ h
    · rw [List.getLast?_append, getLast?_of_spaced has]
      rfl
    · intro b hb
      have := hopens (o := o) (name_of_isNameKind hk hns) has hb
      simpa only [List.append_assoc, List.cons_append, List.nil_append] using this

/-- What stands behind a sigil is refused where it is wrong. -/
theorem pointsAt_of_afterSigil (hk : IsSigil k) (hbehind : Behind all before input)
    (hopens : k = .at → OpensBehind before) (h : afterSigil k input = .error err) :
    PointsAt all err := by
  induction hn : input.length using Nat.strong_induction_on generalizing k input before with
  -- A projection holds a quoted text, and that holds references.
  | h n ih =>
    rcases hk with rfl | rfl | rfl
    · exact pointsAt_of_reference hbehind h
    · exact pointsAt_of_reference hbehind h
    · refine pointsAt_of_itemReference (n := n) ?_ (Nat.le_of_eq hn) (hopens rfl) hbehind h
      intro q input before hlt hopens hbehind h
      refine pointsAt_of_template (n := n) ?_ (Nat.le_of_lt hlt) hopens hbehind h
      intro k input before hlt hk hbehind hopens h
      exact ih _ hlt hk hbehind hopens h rfl

/-- A quoted text is refused where it is wrong. -/
theorem pointsAt_of_quoted {q : String} (hopens : Opens before)
    (hbehind : Behind all (before ++ [⟨.quote, q⟩]) input)
    (h : template .quote input = .error err) : PointsAt all err :=
  pointsAt_of_template (fun _ hk hbehind hopens h => pointsAt_of_afterSigil hk hbehind hopens h)
    (Nat.le_refl _) hopens hbehind h

/-! ## Operations -/

/-- An input stands between operands, where every quote in front of it is closed. -/
def Outside (all : List Token) (input : Input) : Prop :=
  ∃ before, Behind all before input ∧ Balanced before

/-- A reader leaves an input between operands, and its errors point at what is wrong. -/
structure Behaved (all : List Token) (x : Reading α n) : Prop where
  outside : ∀ {a rest}, Reads x a rest → Outside all rest
  pointsAt : ∀ {err}, x = .error err → PointsAt all err

/-- Behind a token that is no quote an input still stands between operands. -/
theorem Outside.next (h : Outside all input) (hnext : Next k input s rest) (hk : k ≠ .quote) :
    Outside all rest := by
  obtain ⟨before, hbehind, hbalanced⟩ := h
  obtain ⟨ts, hts, hrest⟩ := hbehind.next hnext
  exact ⟨before ++ ts, hrest, hbalanced.append (kind_ne_of_spaced hts hk (by decide))⟩

/-- Behind blanks an input still stands between operands. -/
theorem Outside.skipBlank (h : Outside all input) : Outside all (skipBlank input) := by
  obtain ⟨before, hbehind, hbalanced⟩ := h
  obtain ⟨b, hb, hrest⟩ := hbehind.skipBlank
  exact ⟨before ++ b, hrest, hbalanced.append (kind_ne_of_blanks hb (by decide))⟩

/-- Behind one token that is no quote an input still stands between operands. -/
theorem Outside.cons (h : Outside all ((t, i) :: input)) (ht : t.kind ≠ .quote) :
    Outside all input := by
  obtain ⟨before, hbehind, hbalanced⟩ := h
  exact ⟨before ++ [t], hbehind.cons.2, hbalanced.token ht⟩

/-- A reader that leaves an input between operands behaves. -/
theorem behaved_ok {read : Read α n} (h : Outside all read.rest) :
    Behaved all (.ok read : Reading α n) where
  outside hreads := (reads_ok.1 hreads).2 ▸ h
  pointsAt herr := by cases herr

/-- A reader whose error points at what is wrong behaves. -/
theorem behaved_error (h : PointsAt all err) : Behaved all (.error err : Reading α n) where
  outside hreads := absurd hreads not_reads_error
  pointsAt herr := Except.error.inj herr ▸ h

/-- Two steps behave if both do. -/
theorem Behaved.bind {x : Reading α m} {f : Read α m → Reading β n} (hx : Behaved all x)
    (hf : ∀ a r h, Reads x a r → Outside all r → Behaved all (f ⟨a, r, h⟩)) :
    Behaved all (x >>= f) where
  outside hreads := by
    obtain ⟨a, r, h, hread, hreads⟩ := reads_bind.1 hreads
    exact (hf a r h hread (hx.outside hread)).outside hreads
  pointsAt herr := by
    rcases reading_bind_eq_error herr with herr | ⟨a, r, h, hread, herr⟩
    · exact hx.pointsAt herr
    · exact (hf a r h hread (hx.outside hread)).pointsAt herr

/-- A bracket that is looked for where no blank token comes next. -/
theorem behaved_closeBracket (h : Outside all input) (hskip : skipBlank input = input)
    (hexact : ¬ IsLoose what) : Behaved all (expect (· = .closeBracket) what input) where
  outside hreads := by
    obtain ⟨k, hk, hnext⟩ := reads_expect_iff.1 hreads
    obtain rfl : k = .closeBracket := of_decide_eq_true hk
    exact h.next hnext (by decide)
  pointsAt herr := by
    obtain ⟨before, hbehind, -⟩ := h
    exact pointsAt_of_exact hbehind hexact hskip herr

/-- Reading a reference behaves. -/
theorem behaved_afterSigil (hk : IsSigil k) (h : Outside all ((⟨k, s⟩, i) :: input)) :
    Behaved all (afterSigil k input) := by
  obtain ⟨before, hbehind, hbalanced⟩ := h
  have hquote : k ≠ .quote := by
    rcases hk with rfl | rfl | rfl <;> decide
  refine ⟨fun hreads => ?_, fun herr => ?_⟩
  -- A reference that is read adds its tokens to those in front, and no quote is left open.
  · obtain ⟨ts, htokens, hsuffix, hts⟩ := exists_of_reads_afterSigil hk hreads s
    have hrest := hbehind.of_suffix (hsuffix.trans (List.suffix_cons _ _))
      (by rw [tokens_cons, htokens, List.cons_append])
    exact ⟨_, hrest, hbalanced.reference hts⟩
  -- An error inside is about a projection that is open here, with only names and blanks behind its
  -- bracket, none of which opens a quote.
  · refine pointsAt_of_afterSigil hk hbehind.cons.2 (fun _ ns as b o n a hns has hb => .outside ?_)
      herr
    refine (hbalanced.token hquote).append ?_
    simp only [List.forall_mem_cons, List.forall_mem_append]
    exact ⟨by decide, ⟨kind_ne_of_name hns, kind_ne_of_spaced has (by decide) (by decide)⟩,
      kind_ne_of_blanks hb (by decide)⟩

/-- Operators leave no blanks in front of the rest. -/
theorem skipBlank_of_reads_operations (h : Reads (operations p l input) e rest) :
    skipBlank rest = rest := by
  induction hn : input.length using Nat.strong_induction_on generalizing input l with
  | h n ih =>
    rcases reads_operations_iff.1 h with
      ⟨-, -, rfl⟩ | ⟨k, s, r, op, rhs, r', hnext, -, -, hrhs, he⟩
    · exact skipBlank_skipBlank input
    · have := hnext.length_lt
      have := hrhs.length_lt
      exact ih r'.length (by omega) he rfl

/-- Blank tokens behind an operation are skipped in search of an operator. -/
theorem skipBlank_of_reads_operation (h : Reads (operation p input) e rest) :
    skipBlank rest = rest := by
  obtain ⟨l, r, -, he⟩ := reads_operation_iff.1 h
  exact skipBlank_of_reads_operations he

/-- Operations on less than this many tokens behave. -/
def OperationsBehave (all : List Token) (n : Nat) : Prop :=
  ∀ {p input}, input.length < n → Outside all input → Behaved all (operation p input)

/-- Reading a quoted text behaves. -/
theorem behaved_quoted (h : Outside all ((⟨.quote, s⟩, i) :: input)) :
    Behaved all (primary ⟨.quote, s⟩ i input) := by
  obtain ⟨before, hbehind, hbalanced⟩ := h
  obtain ⟨hposition, hinput⟩ := hbehind.cons
  refine ⟨fun hreads => ?_, fun herr => ?_⟩
  -- The closing quote was found: the whole text is behind the cursor.
  · obtain ⟨parts, ⟨⟨k, c⟩, j⟩, hparts, -⟩ := reads_primary_quote_iff.1 hreads
    obtain ⟨ts, htokens, hts, hend⟩ := template_sound hparts
    obtain rfl : k = .quote := hend _ rfl
    have hrest := (hinput.of_suffix (suffix_of_reads_template hparts) htokens).cons.2
    rw [List.append_assoc, List.append_assoc, List.singleton_append] at hrest
    exact ⟨_, hrest, hbalanced.quoted hts⟩
  · rw [primary] at herr
    -- The template is refused, or it runs to the end without the closing quote.
    rcases reading_bind_eq_error herr with herr | ⟨parts, r, _, hparts, herr⟩
    · exact pointsAt_of_quoted (.outside hbalanced) hinput herr
    obtain ⟨ts, htokens, hts, -⟩ := template_sound hparts
    dsimp only at herr
    split at herr
    · cases herr
      have hquoted : tokens input = ts := htokens.trans (List.append_nil ts)
      refine ⟨before, [], s, tokens input, ?_, hposition.symm, by simp [Blanks], ?_,
        hquoted ▸ unclosed_of_template hts, .inl rfl⟩
      · rw [hbehind.eq_append, tokens_cons, List.append_nil]
      · rw [List.append_nil]
        exact .outside hbalanced
    · cases herr

/-- A word stands for itself or calls a function. -/
theorem behaved_word (ih : OperationsBehave all n) (hn : input.length < n)
    (h : Outside all ((⟨.word, s⟩, i) :: input)) : Behaved all (primary ⟨.word, s⟩ i input) := by
  have hinput := h.cons (by simp)
  rw [primary]
  -- Only a function's name followed by a bracket reads on; any other word is read as it is.
  cases Builtin.ofName? s with
  | none => exact behaved_ok hinput
  | some f =>
    cases input with
    | nil => exact behaved_ok hinput
    | cons u rest =>
      obtain ⟨bracket, j⟩ := u
      dsimp only
      split
      · next hbracket =>
        have hrest := hinput.cons (by rw [hbracket]; decide)
        refine (ih ((Nat.lt_succ_self _).trans hn) hrest).bind fun e r _ he hr => ?_
        exact (behaved_closeBracket hr (skipBlank_of_reads_operation he) (by decide)).bind
          fun _ _ _ _ hrest => behaved_ok hrest
      · exact behaved_ok hinput

/-- Reading the first part of an operand behaves, if operations on fewer tokens do. -/
theorem behaved_primary (ih : OperationsBehave all n) (hn : input.length < n)
    (h : Outside all ((t, i) :: input)) : Behaved all (primary t i input) := by
  obtain ⟨k, s⟩ := t
  by_cases hk : IsSigil k
  · have hsigil := behaved_afterSigil hk h
    rw [primary]
    rcases hk with rfl | rfl | rfl
    all_goals exact hsigil.bind fun _ _ _ _ hrest => behaved_ok hrest
  cases k with
  | openBracket =>
    rw [primary]
    refine (ih hn (h.cons (by simp))).bind fun e r _ he hr => ?_
    exact (behaved_closeBracket hr (skipBlank_of_reads_operation he) (by decide)).bind
      fun _ _ _ _ hrest => behaved_ok hrest
  | quote => exact behaved_quoted h
  | word => exact behaved_word ih hn h
  | _ =>
    -- The sigils were told apart above, and no other token begins an operand.
    obtain ⟨before, hbehind, -⟩ := h
    rw [primary]
    first
    | exact behaved_error ⟨_, hbehind.getElem?, rfl⟩
    | exact absurd (by simp [IsSigil]) hk

/-- Reading what touches an operand behaves, if operations on fewer tokens do. -/
theorem behaved_adjacent (ih : OperationsBehave all n) (hn : input.length ≤ n)
    (h : Outside all input) : Behaved all (adjacent input) := by
  -- The length is generalised away from `input`, so that `hn` still bounds it in the induction.
  obtain ⟨m, hlength⟩ : ∃ m, input.length = m := ⟨_, rfl⟩
  induction m using Nat.strong_induction_on generalizing input with
  | h m ihm =>
    cases input with
    | nil =>
      rw [adjacent]
      exact behaved_ok h
    | cons u input =>
      obtain ⟨t, i⟩ := u
      rw [List.length_cons] at hn hlength
      rw [adjacent]
      split
      · refine (behaved_primary ih hn h).bind fun e r hr _ hrest => ?_
        refine (ihm _ (by omega) (by omega) hrest rfl).bind fun _ _ _ _ hrest => behaved_ok hrest
      · exact behaved_ok h

/-- Reading an operand behaves, if operations on fewer tokens do. -/
theorem behaved_unary (ih : OperationsBehave all n) (hn : input.length ≤ n)
    (h : Outside all input) : Behaved all (unary input) := by
  -- As in `behaved_adjacent`, by induction on the length under the bound `n`.
  obtain ⟨m, hlength⟩ : ∃ m, input.length = m := ⟨_, rfl⟩
  induction m using Nat.strong_induction_on generalizing input with
  | h m ihm =>
    have hle := length_skipBlank_le input
    have hskip := h.skipBlank
    rw [unary]
    split
    · exact behaved_error True.intro
    · next t i rest hinput =>
      -- A `!` leaves a shorter input to the induction; anything else starts a primary.
      rw [hinput, List.length_cons] at hle
      rw [hinput] at hskip
      split
      · next hnot =>
        have hrest := hskip.cons (by rw [hnot]; decide)
        exact (ihm _ (by omega) (by omega) hrest rfl).bind fun _ _ _ _ hrest => behaved_ok hrest
      · refine (behaved_primary ih (by omega) hskip).bind fun e r hr _ hrest => ?_
        exact (behaved_adjacent ih (by omega) hrest).bind fun _ _ _ _ hrest => behaved_ok hrest

/-- Reading a right operand behaves, if operations on fewer tokens do. -/
theorem behaved_rightOperand (ih : OperationsBehave all n) (hn : input.length < n)
    (h : Outside all input) : Behaved all (rightOperand p input) := by
  cases hp : p.tighter with
  | some q =>
    rw [rightOperand_of_tighter hp]
    exact ih hn h
  | none =>
    rw [rightOperand_of_tightest hp]
    exact behaved_unary ih (Nat.le_of_lt hn) h

/-- An operator is no quote. -/
theorem ne_quote_of_operator {op : BinaryOp} (h : Infix p k op) : k ≠ .quote := by
  cases h <;> decide

/-- Reading operators with their right operands behaves, if operations on fewer tokens do. -/
theorem behaved_operations (ih : OperationsBehave all n) (hn : input.length ≤ n)
    (h : Outside all input) : Behaved all (operations p l input) := by
  -- The left operand `l` grows as operators are read, so it is generalised too.
  obtain ⟨m, hlength⟩ : ∃ m, input.length = m := ⟨_, rfl⟩
  induction m using Nat.strong_induction_on generalizing input l with
  | h m ihm =>
    rw [operations]
    split
    · exact behaved_ok h.skipBlank
    · next op rest hoperator =>
      obtain ⟨k, s, hnext, hinfix, -⟩ := operatorAt?_eq_some_iff.1 hoperator
      have hlt := hnext.length_lt
      refine (behaved_rightOperand ih (by omega)
        (h.next hnext (ne_quote_of_operator hinfix))).bind fun rhs r hr _ hrest => ?_
      exact (ihm _ (by omega) (by omega) hrest rfl).bind fun _ _ _ _ hrest => behaved_ok hrest

/-- Operations behave, however long they are. -/
theorem operationsBehave (all : List Token) (n : Nat) : OperationsBehave all n := by
  induction n with
  | zero => exact fun hn => absurd hn (Nat.not_lt_zero _)
  | succ n ih =>
    intro p input hn h
    rw [operation]
    refine (behaved_unary ih (Nat.le_of_lt_succ hn) h).bind fun l r hr _ hrest => ?_
    exact (behaved_operations ih (by omega) hrest).bind fun _ _ _ _ hrest => behaved_ok hrest

/-- Reading an operation behaves. -/
theorem behaved_operation (h : Outside all input) : Behaved all (operation p input) :=
  operationsBehave all _ (Nat.lt_succ_self _) h

/-! ## Conditions -/

/-- Reading the elements of a list behaves. -/
theorem behaved_elements (h : Outside all input) : Behaved all (elements input) := by
  -- Every semicolon is a token read, so what the elements behind it read is shorter.
  obtain ⟨m, hlength⟩ : ∃ m, input.length = m := ⟨_, rfl⟩
  induction m using Nat.strong_induction_on generalizing input with
  | h m ihm =>
    have hle := length_skipBlank_le input
    have hskip := h.skipBlank
    rw [elements]
    split
    · next hinput =>
      rw [hinput] at hskip
      exact behaved_ok hskip
    · next t i rest hinput =>
      rw [hinput, List.length_cons] at hle
      rw [hinput] at hskip
      split
      · next hsemicolon =>
        have hrest := hskip.cons (by rw [hsemicolon]; decide)
        refine (behaved_operation hrest).bind fun e r hr _ hrest => ?_
        exact (ihm _ (by omega) hrest rfl).bind fun _ _ _ _ hrest => behaved_ok hrest
      · exact behaved_ok hskip

/-- An error of a condition points at the token that it reports: a token that is left over or begins
nothing stands at the position. One that is found where another is expected stands there too, or
behind the blank tokens that begin there. A quote that is reported opens there, or behind blank
tokens that follow an arrow, and is never closed. -/
theorem errors_point_at_tokens (h : ofTokens ts = .error err) : PointsAt ts err := by
  have hall : Outside ts ts.zipIdx := ⟨[], behind_zipIdx ts, .nil⟩
  unfold ofTokens at h
  dsimp only at h
  -- A text of blanks only is the empty expression and no error.
  split at h
  · cases h
  rcases bind_eq_error_iff.1 h with h | ⟨⟨first, r₁, hr₁⟩, hfirst, h⟩
  -- What is refused is the first element, a later one, or a token left over at the end.
  · exact (behaved_operation hall).pointsAt h
  have hr := (behaved_operation hall).outside ⟨hr₁, hfirst⟩
  rcases bind_eq_error_iff.1 h with h | ⟨⟨more, r₂, hr₂⟩, hmore, h⟩
  · exact (behaved_elements hr).pointsAt h
  obtain ⟨before, hbehind, -⟩ := (behaved_elements hr).outside ⟨hr₂, hmore⟩
  dsimp only at h
  split at h
  · cases h
  · cases h
    exact ⟨_, hbehind.getElem?, rfl⟩

/-- An operand is refused if its first part is. -/
theorem unary_eq_error_of_primary (hinput : skipBlank input = (t, i) :: rest) (hnot : t.kind ≠ .not)
    (h : primary t i rest = .error err) : unary input = .error err := by
  rw [unary]
  split
  · next hnil => cases hinput.symm.trans hnil
  · next hcons =>
    cases hinput.symm.trans hcons
    rw [if_neg hnot, h]
    rfl

/-- A condition is refused as its first operand is. -/
theorem ofTokens_eq_error_of_primary (hinput : skipBlank ts.zipIdx = (t, i) :: rest)
    (hnot : t.kind ≠ .not) (h : primary t i rest = .error err) : ofTokens ts = .error err := by
  rw [ofTokens]
  dsimp only
  rw [if_neg (by rw [hinput]; exact List.cons_ne_nil _ _), operation,
    unary_eq_error_of_primary hinput hnot h]
  rfl

/-- Two names in a reference are refused at the blank between them. -/
theorem ofText_two_names :
    ofText "$(Foo bar)" = .error (.expected .closingBracketOfReference "bar" 3) := by
  have htokens : Token.ofText "$(Foo bar)" =
      [⟨.dollar, "$"⟩, ⟨.openBracket, "("⟩, ⟨.word, "Foo"⟩, ⟨.blank, " "⟩, ⟨.word, "bar"⟩,
        ⟨.closeBracket, ")"⟩] := by
    decide +kernel
  rw [ofText, htokens]
  refine ofTokens_eq_error_of_primary rfl (by decide) ?_
  rw [primary]
  rfl

/-- A projection whose quote is not closed is refused at the quote. -/
theorem ofText_open_projection : ofText "@(A -> 'x" = .error (.unterminatedQuote 5) := by
  have htokens : Token.ofText "@(A -> 'x" =
      [⟨.at, "@"⟩, ⟨.openBracket, "("⟩, ⟨.word, "A"⟩, ⟨.blank, " "⟩, ⟨.arrow, "->"⟩, ⟨.blank, " "⟩,
        ⟨.quote, "'"⟩, ⟨.word, "x"⟩] := by
    decide +kernel
  have htemplate : template .quote [(⟨.word, "x"⟩, 7)] = .ok ⟨[.quoted "x"], [], by decide⟩ := by
    simp [template, consTemplateText]
  rw [ofText, htokens]
  refine ofTokens_eq_error_of_primary rfl (by decide) ?_
  rw [primary, itemReference]
  change Except.bind (Except.bind (template .quote [(⟨.word, "x"⟩, 7)]) _) _ = _
  rw [htemplate]
  rfl

/-- A quote that is never closed and a second name are found, each behind a blank token. -/
theorem errors_point_at_tokens_two_names :
    PointsAt (Token.ofText "$(Foo bar)") (.expected .closingBracketOfReference "bar" 3) ∧
      PointsAt (Token.ofText "@(A -> 'x") (.unterminatedQuote 5) :=
  ⟨errors_point_at_tokens ofText_two_names, errors_point_at_tokens ofText_open_projection⟩

/-- Positions that are noted before blank tokens are skipped are not those of the token that is
reported. -/
theorem noted_in_front_of_blanks :
    (ofText "$(Foo bar)" = .error (.expected .closingBracketOfReference "bar" 3) ∧
        ¬ ∃ t, (Token.ofText "$(Foo bar)")[3]? = some t ∧ t.text = "bar") ∧
      ofText "@(A -> 'x" = .error (.unterminatedQuote 5) ∧
        ¬ ∃ t, (Token.ofText "@(A -> 'x")[5]? = some t ∧ t.kind = .quote := by
  -- Both places named hold the blank in front of the token that is meant.
  have hname : (Token.ofText "$(Foo bar)")[3]? = some ⟨.blank, " "⟩ := by decide +kernel
  have hquote : (Token.ofText "@(A -> 'x")[5]? = some ⟨.blank, " "⟩ := by decide +kernel
  refine ⟨⟨ofText_two_names, ?_⟩, ofText_open_projection, ?_⟩
  · rintro ⟨t, ht, htext⟩
    rw [hname] at ht
    cases ht
    exact absurd htext (by decide)
  · rintro ⟨t, ht, hkind⟩
    rw [hquote] at ht
    cases ht
    cases hkind

end BuildEngine.Expr
