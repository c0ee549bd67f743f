import BuildEngine.Proofs.Expr.Completeness
import BuildEngine.Proofs.Expr.Meaning
import BuildEngine.Proofs.Expr.NormalForm

/-!
# The normal form makes the same items

Which items an expression makes depends on its shape: a concatenation of a single reference keeps
the metadata of the items referred to, while every other concatenation is read as text. Normalizing
changes shapes, and on some trees it changes items: a concatenation that stands alone in another one
loses metadata, and its normal form does not. No text spells such a tree. What conditions and values
are read as is `Unwrapped`, and the normal form of an unwrapped expression makes the same items
(`outcome_evaluateItems_normalize`).
-/

namespace BuildEngine.Expr

variable {e f : Expr} {parts elements : List Expr} {ctx : Context} {type : String}

/-- An expression that is neither a concatenation nor a list. -/
structure IsSimple (e : Expr) : Prop where
  ne_concat : ∀ parts, e ≠ .concat parts
  ne_list : ∀ elements, e ≠ .list elements

/-- Expressions in which no concatenation stands alone in another one, wherever items are made. -/
inductive Unwrapped : Expr → Prop
  | simple {e : Expr} : IsSimple e → Unwrapped e
  | concat {parts : List Expr} :
    (∀ inner, parts ≠ [.concat inner]) → (∀ e, parts = [e] → Unwrapped e) →
      Unwrapped (.concat parts)
  | list {elements : List Expr} : (∀ e ∈ elements, Unwrapped e) → Unwrapped (.list elements)

/-! ## Items that are read off a text -/

/-- The items of an expression are the entries of its text: it is no reference, projection or list
and no concatenation of one of these alone. -/
structure IsTextual (e : Expr) : Prop where
  not_producing : e.isItemProducing = false
  not_single : ∀ part, e = .concat [part] → part.isItemProducing = false

/-- The items of such an expression are made of the entries of its text. -/
theorem IsTextual.evaluateItems_eq (h : IsTextual e) (ctx : Context) (type : String) :
    e.evaluateItems ctx type = e.entryItems ctx type := by
  cases e with
  | items | projection | list => cases h.not_producing
  | concat parts =>
    match parts with
    | [] | _ :: _ :: _ => rw [evaluateItems] <;> simp
    | [part] => rw [evaluateItems, if_neg (by simp [h.not_single part rfl])]
  | _ => rw [evaluateItems] <;> simp

/-- A concatenation of a single part that makes items makes the same ones. -/
theorem evaluateItems_concat_singleton (h : e.isItemProducing = true) :
    (Expr.concat [e]).evaluateItems ctx type = e.evaluateItems ctx type := by
  rw [evaluateItems, if_pos h]

/-- Expressions that come to the same have the same entries. -/
theorem outcome_entryItems (h : outcome (e.evaluate ctx) = outcome (f.evaluate ctx)) :
    outcome (e.entryItems ctx type) = outcome (f.entryItems ctx type) := by
  simp only [entryItems, evaluateEntries, outcome_bind, outcome_evaluateText h]

/-- A simple expression that does not produce items is textual. -/
theorem isTextual_of_not_producing (hsimple : IsSimple e) (h : e.isItemProducing = false) :
    IsTextual e :=
  ⟨h, fun part hpart => absurd hpart (hsimple.ne_concat [part])⟩

/-! ## Shapes of normal forms -/

/-- What produces items is no plain text. -/
theorem plainText?_of_isItemProducing (h : e.isItemProducing = true) : e.plainText? = none := by
  cases e with
  | items | projection | list => rfl
  | _ => cases h

/-- What a concatenation is normalized to does not produce items. -/
theorem isItemProducing_ofParts (parts : List Expr) : (ofParts parts).isItemProducing = false := by
  unfold ofParts
  split <;> rfl

/-- Normalizing does not change whether an expression produces items. -/
theorem isItemProducing_normalize (e : Expr) :
    (normalize e).isItemProducing = e.isItemProducing := by
  cases e with
  | concat parts => exact isItemProducing_ofParts _
  | _ => rfl

/-- A simple expression stays simple. -/
theorem isSimple_normalize (h : IsSimple e) : IsSimple (normalize e) := by
  cases e with
  | concat parts => exact absurd rfl (h.ne_concat parts)
  | list elements => exact absurd rfl (h.ne_list elements)
  | _ => exact ⟨nofun, nofun⟩

/-- Only a concatenation is normalized to a concatenation. -/
theorem exists_of_normalize_eq_concat (h : normalize e = .concat parts) :
    ∃ inner, e = .concat inner := by
  cases e with
  | concat inner => exact ⟨inner, rfl⟩
  | _ => cases h

/-- Joining texts leaves nothing only of nothing. -/
theorem fuse_eq_nil_iff : fuse parts = [] ↔ parts = [] := by
  constructor
  · intro h
    cases parts with
    | nil => rfl
    | cons e parts =>
      unfold fuse at h
      split at h
      · unfold consText at h
        split at h <;> cases h
      · cases h
  · rintro rfl
    rfl

/-- What is no text was not joined from anything. -/
theorem eq_singleton_of_fuse (h : fuse parts = [e]) (he : e.plainText? = none) : parts = [e] := by
  cases parts with
  | nil => cases h
  | cons f parts =>
    -- `fuse` joins plain texts only, so a part that is not one stands alone.
    unfold fuse at h
    split at h
    · unfold consText at h
      split at h
      all_goals
        rw [List.cons.injEq] at h
        rw [← h.1] at he
        cases he
    · rw [List.cons.injEq, fuse_eq_nil_iff] at h
      rw [h.1, h.2]

/-- A part always leaves something. -/
theorem spliceParts_normalize_ne_nil (e : Expr) : spliceParts (normalize e) ≠ [] := by
  intro h
  unfold spliceParts at h
  split at h
  · next heq =>
    have hnormal := isNormal_normalize e
    rw [heq] at hnormal
    cases hnormal with
    | concat _ _ hcompound => exact hcompound.ne_nil h
  · cases h

/-- If one part is left it is that of a single part. -/
theorem exists_of_normalizeParts_eq_singleton (h : normalizeParts parts = [f]) :
    ∃ e, parts = [e] ∧ spliceParts (normalize e) = [f] := by
  cases parts with
  | nil => cases h
  | cons e parts =>
    rw [normalizeParts, List.append_eq_singleton_iff] at h
    rcases h with ⟨hnil, -⟩ | ⟨he, hnil⟩
    · exact absurd hnil (spliceParts_normalize_ne_nil e)
    · cases parts with
      | nil => exact ⟨e, rfl, he⟩
      | cons g parts =>
        rw [normalizeParts, List.append_eq_nil_iff] at hnil
        exact absurd hnil.1 (spliceParts_normalize_ne_nil g)

/-- Only a single part can be left alone, and what is left of it makes items if it does. -/
theorem isTextual_normalize_concat (hwrapped : ∀ inner, parts ≠ [.concat inner])
    (hsingle : ∀ e, parts = [e] → e.isItemProducing = false) :
    IsTextual (normalize (.concat parts)) := by
  refine ⟨isItemProducing_ofParts _, fun f hf => ?_⟩
  rw [normalize] at hf
  unfold ofParts at hf
  split at hf
  · cases hf
  · cases hf
  · cases hf
  · rw [concat.injEq] at hf
    by_contra hproducing
    rw [Bool.not_eq_false] at hproducing
    obtain ⟨e, rfl, he⟩ := exists_of_normalizeParts_eq_singleton
      (eq_singleton_of_fuse hf (plainText?_of_isItemProducing hproducing))
    -- Otherwise the one part left produces items, and it was the only part from the start.
    have hconcat : ∀ inner, normalize e ≠ .concat inner := by
      intro inner hinner
      obtain ⟨inner, rfl⟩ := exists_of_normalize_eq_concat hinner
      exact hwrapped inner rfl
    rw [spliceParts_of_ne_concat hconcat, List.singleton_inj] at he
    rw [← he, isItemProducing_normalize, hsingle e rfl] at hproducing
    cases hproducing

/-- A single part that makes items is still one in the normal form. -/
theorem normalize_concat_singleton (h : e.isItemProducing = true) :
    normalize (.concat [e]) = .concat [normalize e] := by
  cases e with
  | items | projection | list => rfl
  | _ => cases h

/-! ## Items of normal forms -/

/-- A projection goes through the items one after the other. -/
theorem projectItems_cons (source : Item) (rest : List Item) :
    projectItems parts ctx type (source :: rest) = do
      let identity ← gather id parts { ctx with item := some source }
      let more ← projectItems parts ctx type rest
      return if identity = "" then more else { source with type, identity } :: more := by
  simp [projectItems, gather]

/-- The items of a projection depend on what its parts come to only. -/
theorem outcome_projectItems {parts' : List Expr}
    (h : ∀ ctx, outcome (gather id parts ctx) = outcome (gather id parts' ctx))
    (sources : List Item) :
    outcome (projectItems parts ctx type sources) =
      outcome (projectItems parts' ctx type sources) := by
  induction sources with
  | nil => rfl
  | cons source rest ih => simp only [projectItems_cons, outcome_bind, h, ih, outcome_pure]

/-- No elements have no items. -/
theorem evaluateAllItems_nil : evaluateAllItems [] ctx type = pure [] :=
  rfl

/-- The items of elements are those of the first one and then of the others. -/
theorem evaluateAllItems_cons (e : Expr) (es : List Expr) :
    evaluateAllItems (e :: es) ctx type = do
      let items ← e.evaluateItems ctx type
      return items ++ (← evaluateAllItems es ctx type) := by
  rw [evaluateAllItems]

/-- The items of one element are its items. -/
theorem evaluateAllItems_singleton (e : Expr) :
    evaluateAllItems [e] ctx type = e.evaluateItems ctx type := by
  simp only [evaluateAllItems_cons, evaluateAllItems_nil, pure_bind, List.append_nil, bind_pure]

/-- The items of elements come in the order of the elements. -/
theorem evaluateAllItems_append (es fs : List Expr) :
    evaluateAllItems (es ++ fs) ctx type = do
      let items ← evaluateAllItems es ctx type
      return items ++ (← evaluateAllItems fs ctx type) := by
  induction es with
  | nil => simp only [List.nil_append, evaluateAllItems_nil, pure_bind, bind_pure]
  | cons e es ih =>
    simp only [List.cons_append, evaluateAllItems_cons, ih, bind_assoc, pure_bind,
      List.append_assoc]

/-- What a list is replaced by inside of another list makes the same items. -/
theorem evaluateAllItems_spliceElements (e : Expr) :
    evaluateAllItems (spliceElements e) ctx type = e.evaluateItems ctx type := by
  unfold spliceElements
  split
  · rfl
  · rw [evaluateItems]
  · exact evaluateAllItems_singleton _

/-- Normalized elements have the same items if each element keeps its own. -/
theorem outcome_evaluateAllItems_normalizeElements
    (h : ∀ e ∈ elements, outcome ((normalize e).evaluateItems ctx type) =
      outcome (e.evaluateItems ctx type)) :
    outcome (evaluateAllItems (normalizeElements elements) ctx type) =
      outcome (evaluateAllItems elements ctx type) := by
  induction elements with
  | nil => rfl
  | cons e elements ih =>
    rw [List.forall_mem_cons] at h
    simp only [normalizeElements, evaluateAllItems_append, evaluateAllItems_spliceElements,
      evaluateAllItems_cons, outcome_bind, h.1, ih h.2, outcome_pure]

/-- An unwrapped expression and its normal form make the same items, or fail for the same cause. -/
theorem outcome_evaluateItems_normalize (h : Unwrapped e) (ctx : Context) (type : String) :
    outcome ((normalize e).evaluateItems ctx type) = outcome (e.evaluateItems ctx type) := by
  have htext {e : Expr} (hnormal : IsTextual (normalize e)) (h : IsTextual e) :
      outcome ((normalize e).evaluateItems ctx type) = outcome (e.evaluateItems ctx type) := by
    rw [hnormal.evaluateItems_eq, h.evaluateItems_eq]
    exact outcome_entryItems (outcome_evaluate_normalize e ctx)
  induction h with
  | @simple e hsimple =>
    -- A simple tree that produces no items is a text; the others are references and projections.
    cases hproducing : e.isItemProducing with
    | false =>
      refine htext (isTextual_of_not_producing (isSimple_normalize hsimple) ?_)
        (isTextual_of_not_producing hsimple hproducing)
      rw [isItemProducing_normalize, hproducing]
    | true =>
      cases e with
      | items n => rfl
      | projection n parts =>
        refine outcome_projectItems (fun ctx => ?_) _
        rw [gather_fuse, outcome_gather_normalizeParts]
      | list elements => exact absurd rfl (hsimple.ne_list elements)
      | _ => cases hproducing
  | @concat parts hwrapped _ ih =>
    -- One producing part stands for its own items; anything else in quotes is a text.
    by_cases hsingle : ∃ e, parts = [e] ∧ e.isItemProducing = true
    · obtain ⟨e, rfl, he⟩ := hsingle
      rw [normalize_concat_singleton he, evaluateItems_concat_singleton he,
        evaluateItems_concat_singleton ((isItemProducing_normalize e).trans he)]
      exact ih e rfl
    · have hnone : ∀ e, parts = [e] → e.isItemProducing = false := by
        intro e he
        by_contra hproducing
        exact hsingle ⟨e, he, Bool.not_eq_false _ ▸ hproducing⟩
      refine htext (isTextual_normalize_concat hwrapped hnone) ⟨rfl, fun e he => ?_⟩
      exact hnone e (concat.inj he)
  | list _ ih =>
    rw [normalize, evaluateItems, evaluateItems]
    exact outcome_evaluateAllItems_normalizeElements ih

/-! ## What texts spell is unwrapped -/

section Spelling

open Grammar

variable {stop : TokenKind} {ts : List Token} {input : Input}

/-- A reference is simple. -/
theorem isSimple_of_reference (h : Reference ts e) : IsSimple e := by
  cases h <;> exact ⟨nofun, nofun⟩

/-- Text is simple. -/
theorem isSimple_of_mem_textPart (h : e ∈ textPart ts) : IsSimple e := by
  unfold textPart at h
  dsimp only at h
  split at h
  · cases h
  · rw [List.mem_singleton] at h
    subst h
    exact ⟨nofun, nofun⟩

/-- Templates are made of texts and references. -/
theorem isSimple_of_template :
    ∀ {stop : TokenKind} {ts : List Token} {parts : List Expr}, Template stop ts parts →
      ∀ e ∈ parts, IsSimple e
  | _, _, _, .text _, _, he => isSimple_of_mem_textPart he
  | _, _, _, .reference _ hrs hus, e, he => by
    rcases List.mem_append.1 he with he | he
    · exact isSimple_of_mem_textPart he
    · rcases List.mem_cons.1 he with rfl | he
      · exact isSimple_of_reference hrs
      · exact isSimple_of_template hus e he

/-- A concatenation of simple parts holds no other one. -/
theorem unwrapped_of_isSimple (h : ∀ e ∈ parts, IsSimple e) : Unwrapped (.concat parts) := by
  refine .concat ?_ ?_
  · rintro inner rfl
    exact (h _ List.mem_cons_self).ne_concat inner rfl
  · rintro e rfl
    exact .simple (h e List.mem_cons_self)

/-- Parts that touch are more than one. -/
theorem unwrapped_adjacent (e f : Expr) (es : List Expr) : Unwrapped (.concat (e :: f :: es)) :=
  .concat nofun nofun

mutual

/-- What is read as a primary is unwrapped. -/
theorem unwrapped_of_primary :
    ∀ {ts : List Token} {e : Expr}, Primary ts e → Unwrapped e
  | _, _, .bracketed hts _ => unwrapped_of_operation hts
  | _, _, .quoted hts => unwrapped_of_isSimple (isSimple_of_template hts)
  | _, _, .reference hts => .simple (isSimple_of_reference hts)
  | _, _, .call .. => .simple ⟨nofun, nofun⟩
  | _, _, .literal => .simple ⟨nofun, nofun⟩

/-- What is read as an operand of prefix operators is unwrapped. -/
theorem unwrapped_of_unary :
    ∀ {ts : List Token} {e : Expr}, Unary ts e → Unwrapped e
  | _, _, .not .. => .simple ⟨nofun, nofun⟩
  | _, _, .single _ hts => unwrapped_of_primary hts
  | _, _, .joined .. => unwrapped_adjacent ..

/-- What is read as a right operand is unwrapped. -/
theorem unwrapped_of_operand :
    ∀ {p : Precedence} {ts : List Token} {e : Expr}, Operand p ts e → Unwrapped e
  | _, _, _, .tighter _ hts => unwrapped_of_operation hts
  | _, _, _, .unary _ hts => unwrapped_of_unary hts

/-- What is read as an operation is unwrapped. -/
theorem unwrapped_of_operation :
    ∀ {p : Precedence} {ts : List Token} {e : Expr}, Grammar.Operation p ts e → Unwrapped e
  | _, _, _, .operand hts => unwrapped_of_operand hts
  | _, _, _, .binary .. => .simple ⟨nofun, nofun⟩

end

/-- What is read as the elements of a list is unwrapped. -/
theorem unwrapped_of_elements {es : List Expr} (h : Elements ts es) : ∀ e ∈ es, Unwrapped e := by
  induction h with
  | nil => exact nofun
  | cons _ hts _ ih => exact List.forall_mem_cons.2 ⟨unwrapped_of_operation hts, ih⟩

/-- What is read as a condition is unwrapped. -/
theorem unwrapped_of_condition (h : Condition ts e) : Unwrapped e := by
  cases h with
  | blank _ => exact .simple ⟨nofun, nofun⟩
  | single hts _ => exact unwrapped_of_operation hts
  | list hts hus _ =>
    exact .list (List.forall_mem_cons.2 ⟨unwrapped_of_operation hts, unwrapped_of_elements hus⟩)

/-- The templates of a value are made of texts and references. -/
theorem isSimple_of_templates {segments : List (List Expr)} (h : templates input = .ok segments) :
    ∀ parts ∈ segments, ∀ e ∈ parts, IsSimple e := by
  induction hn : input.length using Nat.strong_induction_on generalizing input segments with
  | h n ih =>
    obtain ⟨parts, rest, hparts, hmore⟩ := templates_eq_ok_iff.1 h
    obtain ⟨ts, -, hts, -⟩ := template_sound hparts
    rcases hmore with ⟨rfl, rfl⟩ | ⟨t, r, more, rfl, hr, rfl⟩
    · simpa using isSimple_of_template hts
    · have hlength := hparts.length_lt
      rw [List.length_cons] at hlength
      exact List.forall_mem_cons.2 ⟨isSimple_of_template hts, ih r.length (by omega) hr rfl⟩

/-- What a text spells as a condition is unwrapped. -/
theorem unwrapped_of_ofText {s : String} (h : ofText s = .ok e) : Unwrapped e :=
  unwrapped_of_condition (condition_of_ofTokens h)

/-- What a text spells as a value is unwrapped. -/
theorem unwrapped_of_ofValueText {s : String} (h : ofValueText s = .ok e) : Unwrapped e := by
  -- The parts of a template are simple, and a list of several templates is one of such parts.
  unfold ofValueText at h
  cases hsegments : templates (Token.ofText s).zipIdx with
  | error err => simp [hsegments, bind, Except.bind] at h
  | ok segments =>
    have hsimple := isSimple_of_templates hsegments
    simp only [hsegments, bind, Except.bind] at h
    split at h
    · next parts =>
      obtain rfl := Except.ok.inj h
      exact unwrapped_of_isSimple (hsimple parts List.mem_cons_self)
    · obtain rfl := Except.ok.inj h
      refine .list fun e he => ?_
      obtain ⟨parts, hparts, rfl⟩ := List.mem_map.1 he
      exact unwrapped_of_isSimple (hsimple parts hparts)

end Spelling

/-- The normal form of what a text spells, as a condition or as a value, makes the same items as
what the text spells, or both fail for the same cause. -/
theorem normalize_keeps_items {s : String} (h : ofText s = .ok e ∨ ofValueText s = .ok e)
    (ctx : Context) (type : String) :
    (∃ items, (normalize e).evaluateItems ctx type = .ok items ∧
        e.evaluateItems ctx type = .ok items) ∨
      ∃ err err', (normalize e).evaluateItems ctx type = .error err ∧
        e.evaluateItems ctx type = .error err' ∧ err.cause = err'.cause := by
  have hunwrapped : Unwrapped e := h.elim unwrapped_of_ofText unwrapped_of_ofValueText
  exact outcome_eq_iff.1 (outcome_evaluateItems_normalize hunwrapped ctx type)

/-- A context with one source, which has a link. -/
def linkedSource : Context where
  env := Environment.empty.addItem ⟨"Compile", "a.cs", [("Link", "a")]⟩
  files := .memory (.empty ⟨"/p"⟩ [])
  base := ⟨"/p"⟩
  item := none

-- The hypothesis is needed: on a tree that no text spells, the items change.
example : (Expr.concat [.concat [.items "Compile"]]).evaluateItems linkedSource "Out" =
      .ok [⟨"Out", "a.cs", []⟩] ∧
    (normalize (.concat [.concat [.items "Compile"]])).evaluateItems linkedSource "Out" =
      .ok [⟨"Out", "a.cs", [("Link", "a")]⟩] := by
  decide +kernel

open Grammar in
/-- A quoted reference in front of a quoted list is read as two elements. -/
theorem ofText_quoted_reference :
    ofText "'@(Compile)';'b.cs;c.cs'" =
      .ok (.list [.concat [.items "Compile"], .concat [.quoted "b.cs;c.cs"]]) := by
  have htokens : Token.ofText "'@(Compile)';'b.cs;c.cs'" =
      [⟨.quote, "'"⟩, ⟨.at, "@"⟩, ⟨.openBracket, "("⟩, ⟨.word, "Compile"⟩, ⟨.closeBracket, ")"⟩,
        ⟨.quote, "'"⟩, ⟨.semicolon, ";"⟩, ⟨.quote, "'"⟩, ⟨.word, "b.cs"⟩, ⟨.semicolon, ";"⟩,
        ⟨.word, "c.cs"⟩, ⟨.quote, "'"⟩] := by
    decide +kernel
  -- The tree of the grammar, bottom up; the tokens are cut by evaluation.
  have hblank : Blanks [] := nofun
  have hnothing : Plain .quote [] := ⟨nofun, .nil⟩
  have htext : Plain .quote [⟨.word, "b.cs"⟩, ⟨.semicolon, ";"⟩, ⟨.word, "c.cs"⟩] :=
    ⟨by decide, by simp [IsSigil]⟩
  have hreference : Reference [⟨.at, "@"⟩, ⟨.openBracket, "("⟩, ⟨.word, "Compile"⟩,
      ⟨.closeBracket, ")"⟩] (.items "Compile") :=
    .items (.mk (k := .word) (by decide) (.mk hblank)) (.mk hblank)
  have hfirst : Primary [⟨.quote, "'"⟩, ⟨.at, "@"⟩, ⟨.openBracket, "("⟩, ⟨.word, "Compile"⟩,
      ⟨.closeBracket, ")"⟩, ⟨.quote, "'"⟩] (.concat [.items "Compile"]) :=
    .quoted (.reference hnothing hreference (.text hnothing))
  have hsecond : Primary [⟨.quote, "'"⟩, ⟨.word, "b.cs"⟩, ⟨.semicolon, ";"⟩, ⟨.word, "c.cs"⟩,
      ⟨.quote, "'"⟩] (.concat [.quoted "b.cs;c.cs"]) :=
    .quoted (.text htext)
  rw [ofText, htokens]
  exact ofTokens_of_condition (.list (b := []) (operation_of_unary (.single hblank hfirst))
    (.cons (.mk hblank) (operation_of_unary (.single hblank hsecond)) .nil) hblank)

/-- A quoted reference keeps the link and a quoted text is cut into items, also in the normal
form. -/
theorem normalize_keeps_items_quoted_reference :
    ∃ e, ofText "'@(Compile)';'b.cs;c.cs'" = .ok e ∧
      (normalize e).evaluateItems linkedSource "Out" =
        .ok [⟨"Out", "a.cs", [("Link", "a")]⟩, ⟨"Out", "b.cs", []⟩, ⟨"Out", "c.cs", []⟩] := by
  have hitems :
      (Expr.list [.concat [.items "Compile"], .concat [.quoted "b.cs;c.cs"]]).evaluateItems
          linkedSource "Out" =
        .ok [⟨"Out", "a.cs", [("Link", "a")]⟩, ⟨"Out", "b.cs", []⟩, ⟨"Out", "c.cs", []⟩] := by
    decide +kernel
  refine ⟨_, ofText_quoted_reference, ?_⟩
  -- The theorem gives one of two cases, and the items of the raw tree decide which.
  rcases normalize_keeps_items (.inl ofText_quoted_reference) linkedSource "Out" with
    ⟨items, hnormal, hsame⟩ | ⟨err, err', -, herr, -⟩
  · rw [hnormal, ← hsame, hitems]
  · rw [hitems] at herr
    cases herr

end BuildEngine.Expr
