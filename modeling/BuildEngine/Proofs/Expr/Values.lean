import BuildEngine.Proofs.Expr.Materializing
import BuildEngine.Proofs.Expr.Seams

/-!
# Values are templates

The grammar of values beside the one of conditions: a value is a template, or templates with a `;`
between them (`Segments`), and reading a value is this grammar (`ofValueText_eq_ok_iff`).

What a value or a template means does not show where its tokens were cut into parts. `Contributes`
says what tokens come to without cutting them: every token that is not of a reference stands for its
text, a `;` included. Templates and values agree with it in both directions.
-/

namespace BuildEngine.Grammar

/-- Templates with a `;` in front of each but the first. -/
inductive Segments : List Token → List (List Expr) → Prop
  | single {ts : List Token} {parts : List Expr} :
    Template .semicolon ts parts → Segments ts [parts]
  | cons {s : String} {ts us : List Token} {parts : List Expr} {more : List (List Expr)} :
    Template .semicolon ts parts → Segments us more →
      Segments (ts ++ ⟨.semicolon, s⟩ :: us) (parts :: more)

end BuildEngine.Grammar

namespace BuildEngine.Expr

open Grammar

variable {input : Input} {e : Expr} {parts : List Expr} {segments more : List (List Expr)}
  {s : String} {t : Token} {ts us rs : List Token} {ctx : Context} {stop : TokenKind}
  {x y : Context → Except EvalError String}

/-! ## Reading values -/

/-- What is read as the templates of a value are its segments. -/
theorem segments_of_templates (h : templates input = .ok segments) :
    Segments (tokens input) segments := by
  -- On the length of the input: what stands behind a `;` is shorter.
  induction hn : input.length using Nat.strong_induction_on generalizing input segments with
  | h n ih =>
    obtain ⟨parts, rest, hparts, hmore⟩ := templates_eq_ok_iff.1 h
    obtain ⟨ts, heq, hts, hstop⟩ := template_sound hparts
    rcases hmore with ⟨rfl, rfl⟩ | ⟨⟨⟨k, s⟩, i⟩, r, more, rfl, hr, rfl⟩
    · rw [heq, tokens_eq_nil_iff.2 rfl, List.append_nil]
      exact .single hts
    · obtain rfl : k = .semicolon := hstop _ rfl
      have hlength := hparts.length_lt
      rw [List.length_cons] at hlength
      rw [heq]
      exact .cons hts (ih r.length (by omega) hr rfl)

/-- All segments of a value are read. -/
theorem templates_of_segments (h : Segments ts segments) :
    ∀ {input}, tokens input = ts → templates input = .ok segments := by
  induction h with
  | single hts =>
    intro input hinput
    obtain ⟨rest, hparts, hrest⟩ := template_complete hts (by simp [IsSigil]) nofun
      (hinput.trans (List.append_nil _).symm) nofun
    exact templates_eq_ok_iff.2 ⟨_, rest, hparts, .inl ⟨tokens_eq_nil_iff.1 hrest, rfl⟩⟩
  | cons hts _ ih =>
    intro input hinput
    -- The first template is read up to its `;`, which is left standing.
    obtain ⟨rest, hparts, hrest⟩ := template_complete hts (by simp [IsSigil]) nofun hinput
      (by rintro t ⟨⟩; rfl)
    obtain ⟨i, r, rfl, hr⟩ := tokens_eq_cons_iff.1 hrest
    exact templates_eq_ok_iff.2 ⟨_, _, hparts, .inr ⟨_, r, _, rfl, ih hr, rfl⟩⟩

/-- The value that templates make: one stands for itself, several are a list. -/
def ofSegments : List (List Expr) → Expr
  | [parts] => .concat parts
  | segments => .list (segments.map .concat)

/-- A value is read from its templates. -/
theorem ofValueText_eq (s : String) :
    ofValueText s = ofSegments <$> templates (Token.ofText s).zipIdx := by
  unfold ofValueText
  cases templates (Token.ofText s).zipIdx with
  | error err => rfl
  | ok segments =>
    match segments with
    | [] | [_] | _ :: _ :: _ => rfl

/-- A text is read as the value that its tokens spell. -/
theorem ofValueText_eq_ok_iff :
    ofValueText s = .ok e ↔
      ∃ segments, Segments (Token.ofText s) segments ∧ e = ofSegments segments := by
  rw [ofValueText_eq]
  -- Soundness and completeness of the segments, with the two results taken apart.
  constructor
  · intro h
    cases hsegments : templates (Token.ofText s).zipIdx with
    | error err =>
      rw [hsegments] at h
      cases h
    | ok segments =>
      rw [hsegments] at h
      exact ⟨segments, tokens_zipIdx (Token.ofText s) ▸ segments_of_templates hsegments,
        (Except.ok.inj h).symm⟩
  · rintro ⟨segments, hsegments, rfl⟩
    rw [templates_of_segments hsegments (tokens_zipIdx _)]
    rfl

/-! ## What values mean -/

/-- A list of one element means what the element means. -/
theorem evaluateText_list_singleton : (Expr.list [e]).evaluateText ctx = e.evaluateText ctx := by
  rw [evaluateText, evaluate_list, gather_singleton]
  simp only [behindFirst_separated, bind_assoc, pure_bind, Value.toText, bind_pure]

/-- A `;` stands behind the first of several elements. -/
theorem evaluateText_list_cons (f : Expr) (es : List Expr) :
    (Expr.list (e :: f :: es)).evaluateText ctx = do
      return (← e.evaluateText ctx) ++ ";" ++ (← (Expr.list (f :: es)).evaluateText ctx) := by
  -- Both texts have a `;` in front, and only the first one is dropped again.
  have hseam (s t : String) : behindFirst (separated s ++ separated t) = s ++ ";" ++ t := by
    have happend : separated s ++ separated t = separated (s ++ separated t) := String.append_assoc
    rw [happend, behindFirst_separated, separated, String.append_assoc]
  rw [evaluateText, evaluate_list, gather_cons, gather_separated_cons]
  simp only [bind_assoc, pure_bind, Value.toText, hseam]

/-- One template means what its parts mean. -/
theorem evaluateText_ofSegments_single :
    (ofSegments [parts]).evaluateText ctx = gather id parts ctx :=
  evaluateText_concat parts

/-- A `;` stands behind the first of several templates. -/
theorem evaluateText_ofSegments_cons (hmore : more ≠ []) :
    (ofSegments (parts :: more)).evaluateText ctx = do
      return (← gather id parts ctx) ++ ";" ++ (← (ofSegments more).evaluateText ctx) := by
  -- A single template is no list, so it is told apart from several.
  match more, hmore with
  | [next], _ =>
    have hlist : ofSegments [parts, next] = .list [.concat parts, .concat next] := rfl
    rw [hlist, evaluateText_list_cons, evaluateText_list_singleton, evaluateText_concat]
    rfl
  | next :: last :: more, _ =>
    have hlist : ofSegments (parts :: next :: last :: more) =
        .list (.concat parts :: .concat next :: (last :: more).map .concat) := rfl
    rw [hlist, evaluateText_list_cons, evaluateText_concat]
    rfl

/-- A value of templates is a text. -/
theorem evaluate_ofSegments (segments : List (List Expr)) :
    (ofSegments segments).evaluate ctx = do
      return .text (← (ofSegments segments).evaluateText ctx) := by
  unfold ofSegments
  split
  · simp only [evaluateText_concat, evaluate_concat]
  · simp only [evaluateText, evaluate_list, bind_assoc, pure_bind, Value.toText]

/-! ## What tokens contribute -/

/-- Tokens of texts and references, and the text that they contribute in a context. -/
inductive Contributes : List Token → (Context → Except EvalError String) → Prop
  | nil : Contributes [] fun _ => pure ""
  | text {t : Token} {ts : List Token} {x : Context → Except EvalError String} :
    (IsSigil t.kind → ∀ u ∈ ts.head?, u.kind ≠ .openBracket) → Contributes ts x →
      Contributes (t :: ts) fun ctx => do return t.text ++ (← x ctx)
  | reference {rs us : List Token} {e : Expr} {x : Context → Except EvalError String} :
    Reference rs e → Contributes us x →
      Contributes (rs ++ us) fun ctx => do return (← e.evaluateText ctx) ++ (← x ctx)

/-- What contributes a text contributes the same text in other words. -/
theorem Contributes.congr (h : Contributes ts x) (hxy : ∀ ctx, x ctx = y ctx) :
    Contributes ts y :=
  funext hxy ▸ h

/-- Tokens of text in front. -/
theorem Contributes.texts (h : Contributes us x)
    (hts : ts.IsChain fun t u => IsSigil t.kind → u.kind ≠ .openBracket)
    (hus : ∀ u ∈ us.head?, u.kind ≠ .openBracket) :
    Contributes (ts ++ us) fun ctx => do return String.join (ts.map Token.text) ++ (← x ctx) := by
  induction ts with
  | nil =>
    refine h.congr fun ctx => ?_
    simp only [List.map_nil, String.join_nil, String.empty_append, bind_pure]
  | cons t ts ih =>
    rw [List.isChain_cons] at hts
    refine (Contributes.text (fun hsigil u hu => ?_) (ih hts.2)).congr fun ctx => ?_
    -- Behind the last token of the text comes the first of `us`.
    · cases ts with
      | nil => exact hus u hu
      | cons v ts => exact hts.1 u hu hsigil
    · simp only [List.map_cons, String.join_cons, String.append_assoc, bind_assoc, pure_bind]

/-- What two runs of tokens contribute, one behind the other. -/
theorem Contributes.append (hts : Contributes ts x) (hus : Contributes us y)
    (hhead : ∀ u ∈ us.head?, u.kind ≠ .openBracket) :
    Contributes (ts ++ us) fun ctx => do return (← x ctx) ++ (← y ctx) := by
  -- On what is contributed in front; `hhead` is about the first token behind it.
  induction hts with
  | nil =>
    refine hus.congr fun ctx => ?_
    simp only [pure_bind, String.empty_append, bind_pure]
  | @text t ts x ht _ ih =>
    refine (Contributes.text (fun hsigil u hu => ?_) ih).congr fun ctx => ?_
    · cases ts with
      | nil => exact hhead u hu
      | cons v ts => exact ht hsigil u hu
    · simp only [bind_assoc, pure_bind, String.append_assoc]
  | reference hrs _ ih =>
    rw [List.append_assoc]
    refine (Contributes.reference hrs ih).congr fun ctx => ?_
    simp only [bind_assoc, pure_bind, String.append_assoc]

/-- No bracket begins a reference. -/
theorem ne_openBracket_of_reference (h : Reference rs e) :
    ∀ u ∈ (rs ++ us).head?, u.kind ≠ .openBracket := by
  cases h <;> rintro _ ⟨⟩ <;> exact nofun

/-- Text in front contributes its tokens. -/
theorem gather_textPart_append (ts : List Token) (parts : List Expr) :
    gather id (textPart ts ++ parts) ctx = do
      return String.join (ts.map Token.text) ++ (← gather id parts ctx) := by
  unfold textPart
  dsimp only
  split
  · next hnil => simp only [hnil, List.nil_append, String.empty_append, bind_pure]
  · simp only [List.singleton_append, gather_cons, evaluateText_quoted, pure_bind, id]

/-- The tokens of a template contribute what its parts mean. -/
theorem contributes_of_template :
    ∀ {stop : TokenKind} {ts : List Token} {parts : List Expr}, Template stop ts parts →
      Contributes ts (gather id parts)
  -- A text to the end, or a text and a reference before the rest of the template.
  | _, ts, _, .text hts => by
    have h := Contributes.nil.texts hts.2 nofun
    rw [List.append_nil] at h
    refine h.congr fun ctx => ?_
    have hgather : gather id (textPart ts ++ []) ctx = _ := gather_textPart_append ts []
    rw [List.append_nil] at hgather
    rw [hgather, gather_nil]
  | _, _, _, @Template.reference _ ts _ _ _ _ hts hrs hus => by
    have h := ((contributes_of_template hus).reference hrs).texts hts.2
      (ne_openBracket_of_reference hrs)
    rw [List.append_assoc]
    refine h.congr fun ctx => ?_
    rw [gather_textPart_append, gather_cons]
    rfl

/-- The tokens of a value contribute what the value means. -/
theorem contributes_of_segments (h : Segments ts segments)
    (hsemicolon : ∀ t ∈ ts, t.kind = .semicolon → t.text = ";") :
    Contributes ts (ofSegments segments).evaluateText := by
  induction h with
  | single hts =>
    exact (contributes_of_template hts).congr fun _ => evaluateText_ofSegments_single.symm
  | @cons s ts us parts more hts hus ih =>
    rw [List.forall_mem_append, List.forall_mem_cons] at hsemicolon
    -- The `;` is a text in front of what the further templates contribute.
    obtain rfl : s = ";" := hsemicolon.2.1 rfl
    have hmore : more ≠ [] := by cases hus <;> exact nofun
    have hbehind := (ih hsemicolon.2.2).text (t := ⟨.semicolon, ";"⟩) (by simp [IsSigil])
    refine ((contributes_of_template hts).append hbehind (by simp)).congr fun ctx => ?_
    simp only [evaluateText_ofSegments_cons hmore, bind_assoc, pure_bind, String.append_assoc]

/-- Text in front contributes itself, whether it is joined to what follows or not. -/
theorem gather_consTemplateText (s : String) (parts : List Expr) :
    gather id (consTemplateText s parts) ctx = do return s ++ (← gather id parts ctx) := by
  unfold consTemplateText
  split
  · simp only [gather_cons, evaluateText_quoted, pure_bind, bind_assoc, id, String.append_assoc]
  · split
    · next hempty =>
      rw [String.isEmpty_iff] at hempty
      simp only [hempty, String.empty_append, bind_pure]
    · simp only [gather_cons, evaluateText_quoted, pure_bind, id]

/-- No tokens are a template without parts. -/
theorem template_nil (stop : TokenKind) : Template stop [] [] :=
  .text ⟨by simp, .nil⟩

/-- A reference in front of a template. -/
theorem template_reference (hrs : Reference rs e) (h : Template stop ts parts) :
    Template stop (rs ++ ts) (e :: parts) :=
  .reference ⟨by simp, .nil⟩ hrs h

/-- Tokens are the template of what they contribute, up to a token that is not among them. -/
theorem template_of_contributes (h : Contributes ts x) (hstop : ∀ t ∈ ts, t.kind ≠ stop) :
    ∃ parts, Template stop ts parts ∧ ∀ ctx, gather id parts ctx = x ctx := by
  -- On what is contributed: a text joins the part behind it, a reference is one of its own.
  induction h with
  | nil => exact ⟨[], template_nil stop, fun _ => gather_nil⟩
  | text ht _ ih =>
    rw [List.forall_mem_cons] at hstop
    obtain ⟨parts, hparts, hx⟩ := ih hstop.2
    refine ⟨_, template_cons hparts hstop.1 ht, fun ctx => ?_⟩
    rw [gather_consTemplateText, hx]
  | reference hrs _ ih =>
    rw [List.forall_mem_append] at hstop
    obtain ⟨parts, hparts, hx⟩ := ih hstop.2
    refine ⟨_, template_reference hrs hparts, fun ctx => ?_⟩
    rw [gather_cons, hx]
    rfl

/-- What stands in front of a value stands in front of its first template. -/
theorem segments_grow (rs : List Token) {f : List Expr → List Expr} (h : Segments ts segments)
    (hgrow : ∀ {us parts}, us <+: ts → Template .semicolon us parts →
      Template .semicolon (rs ++ us) (f parts)) :
    ∃ parts more, segments = parts :: more ∧ Segments (rs ++ ts) (f parts :: more) := by
  cases h with
  | single hts => exact ⟨_, _, rfl, .single (hgrow (List.prefix_refl _) hts)⟩
  | cons hts hus =>
    refine ⟨_, _, rfl, ?_⟩
    rw [← List.append_assoc]
    exact .cons (hgrow (List.prefix_append _ _) hts) hus

/-- What is put in front of the first template is put in front of the value. -/
theorem evaluateText_ofSegments_grow {parts' : List Expr} {s : Except EvalError String}
    (h : gather id parts' ctx = do return (← s) ++ (← gather id parts ctx)) :
    (ofSegments (parts' :: more)).evaluateText ctx = do
      return (← s) ++ (← (ofSegments (parts :: more)).evaluateText ctx) := by
  -- The text stands in front of the `;`, if there is one.
  by_cases hmore : more = []
  · rw [hmore, evaluateText_ofSegments_single, evaluateText_ofSegments_single, h]
  · simp only [evaluateText_ofSegments_cons hmore, h, bind_assoc, pure_bind, String.append_assoc]

/-- Tokens are the value of what they contribute. -/
theorem segments_of_contributes (h : Contributes ts x)
    (hsemicolon : ∀ t ∈ ts, t.kind = .semicolon → t.text = ";") :
    ∃ segments, Segments ts segments ∧ ∀ ctx, (ofSegments segments).evaluateText ctx = x ctx := by
  induction h with
  | nil =>
    refine ⟨[[]], .single (template_nil _), fun ctx => ?_⟩
    rw [evaluateText_ofSegments_single, gather_nil]
  | @text t ts x ht _ ih =>
    rw [List.forall_mem_cons] at hsemicolon
    obtain ⟨segments, hsegments, hx⟩ := ih hsemicolon.2
    by_cases hk : t.kind = .semicolon
    -- A `;` ends an empty template, and any other token grows the first one.
    · obtain ⟨k, s⟩ := t
      obtain rfl : k = .semicolon := hk
      obtain rfl : s = ";" := hsemicolon.1 rfl
      have hne : segments ≠ [] := by cases hsegments <;> exact nofun
      refine ⟨[] :: segments, .cons (template_nil _) hsegments, fun ctx => ?_⟩
      rw [evaluateText_ofSegments_cons hne, gather_nil, hx]
      rfl
    · have hhead {us : List Token} (hus : us <+: ts) : ∀ u ∈ us.head?, u ∈ ts.head? := by
        obtain ⟨vs, rfl⟩ := hus
        intro u hu
        rw [List.head?_append, Option.mem_def.1 hu]
        rfl
      obtain ⟨parts, more, rfl, hgrown⟩ := segments_grow [t] hsegments
        fun hus hparts => template_cons hparts hk fun hsigil u hu => ht hsigil u (hhead hus u hu)
      refine ⟨_, hgrown, fun ctx => ?_⟩
      rw [evaluateText_ofSegments_grow (s := pure t.text), hx, pure_bind]
      rw [gather_consTemplateText, pure_bind]
  | reference hrs _ ih =>
    rw [List.forall_mem_append] at hsemicolon
    obtain ⟨segments, hsegments, hx⟩ := ih hsemicolon.2
    obtain ⟨parts, more, rfl, hgrown⟩ := segments_grow _ hsegments fun _ => template_reference hrs
    refine ⟨_, hgrown, fun ctx => ?_⟩
    rw [evaluateText_ofSegments_grow (s := _), hx]
    rw [gather_cons]
    rfl

end BuildEngine.Expr
