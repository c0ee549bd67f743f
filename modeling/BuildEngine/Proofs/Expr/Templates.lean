import BuildEngine.Proofs.Expr.Values

/-!
# Texts with references in them

What a template contributes is read off its text. Text without references stands for itself,
whatever it means elsewhere, and a property reference for the value of the property, so reading a
value and evaluating it substitutes the properties and changes nothing else
(`ofValueText_substitutes`). A template means the same in quotes and as a value of its own
(`quoted_agrees_with_bare`).
-/

namespace BuildEngine.Expr

open Grammar

variable {s : String} {e : Expr} {cs : List Char} {t : Token} {ts : List Token} {ctx : Context}

/-! ## Tokens of a text -/

/-- The tokens of a text lead what follows them. -/
theorem leads_of_mem_ofText (h : t ∈ Token.ofText s) : ∃ rest, Token.Leads t rest := by
  obtain ⟨before, after, heq⟩ := List.append_of_mem h
  exact ⟨_, (Token.cut_iff.2 rfl : Token.Cut s.toList _).leads before t after heq⟩

/-- The tokens of a text make up the text. -/
theorem join_ofText (s : String) : String.join ((Token.ofText s).map Token.text) = s := by
  rw [← String.toList_inj, Token.toList_join]
  exact (Token.cut_iff.2 rfl).chars_eq

/-- A token that separates is a semicolon. -/
theorem text_of_semicolon (h : t ∈ Token.ofText s) (hk : t.kind = .semicolon) : t.text = ";" := by
  obtain ⟨rest, hleads⟩ := leads_of_mem_ofText h
  exact hleads.text_of_delimiter? (c := ';') (by rw [hk]; rfl)

/-- A text without quotes has no quotes among its tokens. -/
theorem ne_quote_of_mem_ofText (hs : '\'' ∉ s.toList) (h : t ∈ Token.ofText s) :
    t.kind ≠ .quote := by
  intro hk
  obtain ⟨rest, hleads⟩ := leads_of_mem_ofText h
  have htext : t.text = "'" := hleads.text_of_delimiter? (c := '\'') (by rw [hk]; rfl)
  have hchars : Token.chars (Token.ofText s) = s.toList := (Token.cut_iff.2 rfl).chars_eq
  rw [← hchars] at hs
  exact hs (List.mem_flatMap.2 ⟨t, h, by rw [htext]; decide⟩)

/-! ## Substituting properties -/

/-- What every reference begins with. -/
def openings : List String :=
  ["$(", "%(", "@("]

/-- A text in which no bracket touches a sigil. -/
def IsReferenceFree (s : String) : Prop :=
  ∀ opening ∈ openings, ¬opening.toList <:+: s.toList

instance (s : String) : Decidable (IsReferenceFree s) :=
  inferInstanceAs (Decidable (∀ opening ∈ openings, ¬opening.toList <:+: s.toList))

/-- A text that is a single token which can be a name. -/
def IsName (s : String) : Prop :=
  ∃ t, Token.ofText s = [t] ∧ t.kind.IsWord

/-- A sigil and a bracket are an opening. -/
theorem opening_of_isSigil {u : Token} {rest rest' : List Char} (ht : Token.Leads t rest)
    (hu : Token.Leads u rest') (hsigil : IsSigil t.kind) (hbracket : u.kind = .openBracket) :
    t.text ++ u.text ∈ openings := by
  have hopen : u.text = "(" := hu.text_of_delimiter? (c := '(') (by rw [hbracket]; rfl)
  rw [hopen]
  -- The sigil is one of the three, and the token behind it is the bracket itself.
  rcases hsigil with hk | hk | hk
  · have htext : t.text = "$" := ht.text_of_delimiter? (c := '$') (by rw [hk]; rfl)
    rw [htext]
    decide
  · have htext : t.text = "%" := ht.text_of_delimiter? (c := '%') (by rw [hk]; rfl)
    rw [htext]
    decide
  · have htext : t.text = "@" := ht.text_of_delimiter? (c := '@') (by rw [hk]; rfl)
    rw [htext]
    decide

/-- Where no bracket touches a sigil in the text, none does among the tokens. -/
theorem isChain_of_cut (h : Token.Cut cs ts)
    (hfree : ∀ opening ∈ openings, ¬opening.toList <:+: cs) :
    ts.IsChain fun t u => IsSigil t.kind → u.kind ≠ .openBracket := by
  induction h with
  | nil => exact .nil
  | @cons t rest ts hleads hcut ih =>
    refine List.isChain_cons.2 ⟨fun u hu hsigil hbracket => ?_, ih fun opening hmem hsub =>
      hfree opening hmem (List.IsInfix.trans hsub (List.suffix_append _ _).isInfix)⟩
    cases hcut with
    | nil => cases hu
    | @cons u rest ts hnext _ =>
      cases hu
      -- The texts of both tokens stand in front of the characters, and they are an opening.
      refine hfree _ (opening_of_isSigil hleads hnext hsigil hbracket) ⟨[], rest, ?_⟩
      rw [String.toList_append, List.nil_append, List.append_assoc]

/-- A text without references contributes itself. -/
theorem contributes_of_isReferenceFree {us : List Token} {x : Context → Except EvalError String}
    (hs : IsReferenceFree s) (h : Contributes us x) (hus : ∀ u ∈ us.head?, u.kind ≠ .openBracket) :
    Contributes (Token.ofText s ++ us) fun ctx => do return s ++ (← x ctx) := by
  have hcut : Token.Cut s.toList (Token.ofText s) := Token.cut_iff.2 rfl
  have hcontributes := h.texts (isChain_of_cut hcut hs) hus
  rwa [join_ofText] at hcontributes

/-- A name is its own only token. -/
theorem IsName.exists_kind (h : IsName s) : ∃ k, k.IsWord ∧ Token.ofText s = [⟨k, s⟩] := by
  obtain ⟨⟨k, text⟩, htokens, hk⟩ := h
  have htext : text = s := by
    have hjoin := join_ofText s
    rwa [htokens] at hjoin
  exact ⟨k, hk, htext ▸ htokens⟩

/-- A token may stand without blanks before it. -/
theorem spaced_singleton (k : TokenKind) (s : String) : Spaced k [⟨k, s⟩] s :=
  .mk (b := []) nofun

/-- The token of a name spells the name. -/
theorem name_of_isName (h : IsName s) : Name (Token.ofText s) s := by
  obtain ⟨k, hk, htokens⟩ := h.exists_kind
  rw [htokens]
  exact .mk (by simpa [TokenKind.IsWord] using hk) (spaced_singleton k s)

/-- The tokens of a property reference. -/
theorem reference_property_of_isName (h : IsName s) :
    Reference (⟨.dollar, "$"⟩ :: ⟨.openBracket, "("⟩ :: (Token.ofText s ++ [⟨.closeBracket, ")"⟩]))
      (.property s) :=
  .property (name_of_isName h) (spaced_singleton _ _)

/-- A text, and further ones behind what `f` makes of names. -/
def interleave (f : String → String) (text : String) : List (String × String) → String
  | [] => text
  | (name, next) :: more => text ++ f name ++ interleave f next more

/-- The written form of a property reference. -/
def propertyReference (name : String) : String :=
  "$(" ++ name ++ ")"

/-- A reference between texts is cut off by itself. -/
theorem ofText_interleave_cons (text name next : String) (more : List (String × String)) :
    Token.ofText (interleave propertyReference text ((name, next) :: more)) =
      Token.ofText text ++
        ((⟨.dollar, "$"⟩ :: ⟨.openBracket, "("⟩ ::
            (Token.ofText name ++ [⟨.closeBracket, ")"⟩])) ++
          Token.ofText (interleave propertyReference next more)) := by
  have hchars : (interleave propertyReference text ((name, next) :: more)).toList =
      text.toList ++ '$' :: '(' ::
        (name.toList ++ ')' :: (interleave propertyReference next more).toList) := by
    simp [interleave, propertyReference, List.append_assoc]
  -- The text before the sigil ends there, as a sigil is a token of its own.
  simp only [Token.ofText, hchars]
  rw [Token.ofChars_append_delimiter (k := .dollar) rfl,
    Token.ofChars_cons_delimiter (k := .openBracket) rfl,
    Token.ofChars_append_delimiter (k := .closeBracket) rfl]
  simp only [List.cons_append, List.append_assoc, List.nil_append]
  rfl

/-- Texts and property references contribute the texts and the properties. -/
theorem contributes_interleave {text : String} {more : List (String × String)}
    (htext : IsReferenceFree text)
    (hmore : ∀ piece ∈ more, IsName piece.1 ∧ IsReferenceFree piece.2) :
    Contributes (Token.ofText (interleave propertyReference text more)) fun ctx =>
      pure (interleave ctx.env.property text more) := by
  induction more generalizing text with
  | nil =>
    have h := contributes_of_isReferenceFree htext .nil nofun
    rw [List.append_nil] at h
    refine h.congr fun ctx => ?_
    rw [pure_bind, String.append_empty]
    rfl
  | cons piece more ih =>
    obtain ⟨name, next⟩ := piece
    rw [List.forall_mem_cons] at hmore
    -- What follows the text is a sigil, so the text may also end in one.
    have hreference := reference_property_of_isName hmore.1.1
    rw [ofText_interleave_cons]
    refine (contributes_of_isReferenceFree htext ((ih hmore.1.2 hmore.2).reference hreference)
      (ne_openBracket_of_reference hreference)).congr fun ctx => ?_
    simp only [evaluateText, evaluate, interleave, Value.toText, pure_bind, String.append_assoc]
    rfl

/-- Reading a text as a value and evaluating it puts the values of properties where they are
referred to and leaves everything else as it is, also in the normal form. -/
theorem ofValueText_substitutes (text : String) (more : List (String × String))
    (htext : IsReferenceFree text)
    (hmore : ∀ piece ∈ more, IsName piece.1 ∧ IsReferenceFree piece.2) :
    ∃ e, ofValueText (interleave propertyReference text more) = .ok e ∧
      ∀ ctx, e.evaluateText ctx = .ok (interleave ctx.env.property text more) ∧
        (normalize e).evaluateText ctx = .ok (interleave ctx.env.property text more) := by
  obtain ⟨segments, hsegments, hx⟩ := segments_of_contributes (contributes_interleave htext hmore)
    fun t => text_of_semicolon
  refine ⟨_, ofValueText_eq_ok_iff.2 ⟨segments, hsegments, rfl⟩, fun ctx => ⟨hx ctx, ?_⟩⟩
  -- The normal form comes to the same, and this is no failure.
  have hsame := outcome_evaluateText (outcome_evaluate_normalize (ofSegments segments) ctx)
  rw [hx ctx, outcome_eq_iff] at hsame
  rcases hsame with ⟨value, hnormal, hvalue⟩ | ⟨_, _, -, herror, -⟩
  · rw [hnormal, ← hvalue]
    rfl
  · cases herror

/-- A sigil in front of a reference, a bracket behind one, separators and operators around it. -/
theorem ofValueText_substitutes_separators :
    let ctx : Context := { linkedSource with env := Environment.empty.setProperty "Name" "a;b" }
    ∃ e, ofValueText "'x' == ;$(Name)(1) ;$$(and)" = .ok e ∧
      e.evaluateText ctx = .ok "'x' == ;a;b(1) ;$" ∧
        (normalize e).evaluateText ctx = .ok "'x' == ;a;b(1) ;$" := by
  intro ctx
  have hname : IsName "Name" := ⟨⟨.word, "Name"⟩, by decide +kernel, by decide⟩
  have hand : IsName "and" := ⟨⟨.and, "and"⟩, by decide +kernel, by decide⟩
  obtain ⟨e, he, hvalues⟩ := ofValueText_substitutes "'x' == ;"
    [("Name", "(1) ;$"), ("and", "")] (by decide +kernel)
    (List.forall_mem_cons.2 ⟨⟨hname, by decide +kernel⟩,
      List.forall_mem_singleton.2 ⟨hand, by decide +kernel⟩⟩)
  -- What is substituted is not read again: its `;` separates nothing.
  have htext : interleave ctx.env.property "'x' == ;" [("Name", "(1) ;$"), ("and", "")] =
      "'x' == ;a;b(1) ;$" := by
    decide +kernel
  have hvalue := hvalues ctx
  rw [htext] at hvalue
  exact ⟨e, he, hvalue⟩

/-! ## Quoted and bare templates -/

/-- A text without quotes, in quotes, has its own tokens between two quotes. -/
theorem ofText_quotes (s : String) :
    Token.ofText ("'" ++ s ++ "'") =
      ⟨.quote, "'"⟩ :: (Token.ofText s ++ [⟨.quote, "'"⟩]) := by
  have hchars : ("'" ++ s ++ "'").toList = '\'' :: (s.toList ++ ['\'']) := by
    simp
  rw [Token.ofText, hchars, Token.ofChars_cons_delimiter (k := .quote) rfl,
    Token.ofChars_append_delimiter (k := .quote) rfl, Token.ofChars]
  rfl

/-- A template in quotes is read as the concatenation of its parts. -/
theorem ofTokens_of_template {q q' : String} {parts : List Expr} (h : Template .quote ts parts) :
    ofTokens (⟨.quote, q⟩ :: (ts ++ [⟨.quote, q'⟩])) = .ok (.concat parts) := by
  have hblanks : Blanks [] := nofun
  have hunary : Unary ([] ++ ⟨.quote, q⟩ :: (ts ++ [⟨.quote, q'⟩])) (.concat parts) :=
    .single hblanks (.quoted h)
  have hcondition := Condition.single (operation_of_unary hunary) hblanks
  rw [List.append_nil] at hcondition
  exact ofTokens_of_condition hcondition

/-- What is read between quotes is a template, if there is no other quote. -/
theorem exists_template_of_ofTokens {q q' : String} (hts : ∀ t ∈ ts, t.kind ≠ .quote)
    (h : ofTokens (⟨.quote, q⟩ :: (ts ++ [⟨.quote, q'⟩])) = .ok e) :
    ∃ parts, Template .quote ts parts := by
  -- The first operand that is read begins with the first quote.
  rw [ofTokens_eq_ok_iff, List.zipIdx_cons, skipBlank_cons (by simp)] at h
  obtain ⟨first, r, more, hfirst, -, -⟩ := h.resolve_left fun hnil => by cases hnil.1
  obtain ⟨l, r₁, hl, -⟩ := reads_operation_iff.1 hfirst
  obtain ⟨l, r₂, _, hprimary, -, -⟩ :=
    (reads_unary_primary_iff (skipBlank_cons (by simp)) (by simp)).1 hl
  obtain ⟨parts, ⟨close, i⟩, hparts, -⟩ := reads_primary_quote_iff.1 hprimary
  obtain ⟨us, htokens, hus, hclose⟩ := template_sound hparts
  have hk : close.kind = .quote := hclose _ rfl
  have heq : ts ++ [⟨.quote, q'⟩] = us ++ close :: tokens r₂ :=
    (List.zipIdx_map_fst 1 _).symm.trans htokens
  -- The quote that ends the template is the last token, as there is no other.
  rcases List.eq_nil_or_concat' (tokens r₂) with hnil | ⟨vs, v, hvs⟩
  · rw [hnil] at heq
    rw [(List.append_inj' heq rfl).1]
    exact ⟨parts, hus⟩
  · rw [hvs, ← List.cons_append, ← List.append_assoc] at heq
    have hmem : close ∈ ts := by
      rw [(List.append_inj' heq rfl).1]
      exact List.mem_append_right us List.mem_cons_self
    exact absurd hk (hts close hmem)

/-- A text without quotes can be read as a value if and only if it can be read in quotes as a
condition, and both mean the same or fail with the same error. -/
theorem quoted_agrees_with_bare (hs : '\'' ∉ s.toList) :
    ((∃ e, ofValueText s = .ok e) ↔ ∃ f, ofText ("'" ++ s ++ "'") = .ok f) ∧
      ∀ e f, ofValueText s = .ok e → ofText ("'" ++ s ++ "'") = .ok f →
        ∀ ctx, e.evaluate ctx = f.evaluate ctx := by
  have hquote : ∀ t ∈ Token.ofText s, t.kind ≠ .quote := fun t => ne_quote_of_mem_ofText hs
  have hsemicolon : ∀ t ∈ Token.ofText s, t.kind = .semicolon → t.text = ";" :=
    fun t => text_of_semicolon
  -- A value is what its template in quotes is.
  have hquoted : ∀ e, ofValueText s = .ok e →
      ∃ f, ofText ("'" ++ s ++ "'") = .ok f ∧ ∀ ctx, e.evaluate ctx = f.evaluate ctx := by
    intro e he
    obtain ⟨segments, hsegments, rfl⟩ := ofValueText_eq_ok_iff.1 he
    obtain ⟨parts, hparts, hx⟩ := template_of_contributes
      (contributes_of_segments hsegments hsemicolon) hquote
    refine ⟨.concat parts, ?_, fun ctx => ?_⟩
    · rw [ofText, ofText_quotes]
      exact ofTokens_of_template hparts
    · rw [evaluate_ofSegments, evaluate_concat, hx]
  refine ⟨⟨?_, ?_⟩, fun e f he hf ctx => ?_⟩
  · rintro ⟨e, he⟩
    obtain ⟨f, hf, -⟩ := hquoted e he
    exact ⟨f, hf⟩
  · rintro ⟨f, hf⟩
    rw [ofText, ofText_quotes] at hf
    obtain ⟨parts, hparts⟩ := exists_template_of_ofTokens hquote hf
    obtain ⟨segments, hsegments, -⟩ := segments_of_contributes (contributes_of_template hparts)
      hsemicolon
    exact ⟨_, ofValueText_eq_ok_iff.2 ⟨segments, hsegments, rfl⟩⟩
  · obtain ⟨f', hf', hsame⟩ := hquoted e he
    rw [hf] at hf'
    rw [hsame ctx, Except.ok.inj hf']

/-- Metadata in front of a separator, with an item at hand and without one. -/
theorem quoted_agrees_with_bare_metadata :
    ∃ e, ofValueText "%(Link);b" = .ok e ∧
      e.evaluate linkedSource = .error (.metadataOutsideItem "Link") ∧
        e.evaluate { linkedSource with item := some ⟨"Compile", "a.cs", [("Link", "a")]⟩ } =
          .ok (.text "a;b") := by
  have htokens : Token.ofText "%(Link);b" =
      [⟨.percent, "%"⟩, ⟨.openBracket, "("⟩, ⟨.word, "Link"⟩, ⟨.closeBracket, ")"⟩] ++
        [⟨.semicolon, ";"⟩, ⟨.word, "b"⟩] := by
    decide +kernel
  have htemplate : Template .quote (Token.ofText "%(Link);b") [.metadata "Link", .quoted ";b"] := by
    rw [htokens]
    have hname : Name [⟨.word, "Link"⟩] "Link" := .mk (by decide) (spaced_singleton .word _)
    exact template_reference (.metadata hname (spaced_singleton _ _))
      (.text ⟨by decide, by simp [IsSigil]⟩)
  have hquoted : ofText ("'" ++ "%(Link);b" ++ "'") =
      .ok (.concat [.metadata "Link", .quoted ";b"]) := by
    rw [ofText, ofText_quotes]
    exact ofTokens_of_template htemplate
  -- Outside a projection the same reference has no item, so both readings fail alike.
  obtain ⟨hread, hsame⟩ := quoted_agrees_with_bare (s := "%(Link);b") (by decide)
  obtain ⟨e, he⟩ := hread.2 ⟨_, hquoted⟩
  refine ⟨e, he, ?_, ?_⟩
  · rw [hsame e _ he hquoted]
    decide +kernel
  · rw [hsame e _ he hquoted]
    decide +kernel

end BuildEngine.Expr
