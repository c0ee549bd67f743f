import BuildEngine.Proofs.Expr.Occurrence
import BuildEngine.Proofs.Expr.Written

/-!
# Written forms are read back

The written form of an expression in normal form is read as an expression with that normal form, if
it is legible (`ofText_render`). Legible is what a written form tells apart: inside of quotes
everything that is no reference reads as text, so no operation may stand there, and no empty text,
which leaves nothing to read.

What is read need not be what was written. Text in quotes comes back as a concatenation of this one
part, and only the normal forms are the same.
-/

namespace BuildEngine.Expr

open Grammar

variable {e f : Expr} {parts es : List Expr} {s : String} {ts : List Token}

/-! ## Legible expressions -/

/-- Negations, binary operations and calls. -/
def isOperation : Expr → Bool
  | .not _ | .binary .. | .call .. => true
  | _ => false

/-- Expressions whose written form tells what is written. -/
structure Legible (e : Expr) : Prop where
  /-- An operation reads as text inside of quotes; no text spells one inside of a projection. -/
  not_operation : ∀ parts, Occurs (.concat parts) e → ∀ f ∈ parts, f.isOperation = false
  /-- Empty text does not show. -/
  not_empty : ∀ parts, Occurs (.concat parts) e → .quoted "" ∉ parts
  /-- A `!` in front of a `=` reads as an inequality. -/
  not_inequality : ∀ s, Occurs (.not (.literal s)) e → s.toList.head? ≠ some '='

/-- What occurs in a legible expression is legible. -/
theorem Legible.of_occurs (h : Legible e) (hf : Occurs f e) : Legible f :=
  ⟨fun parts hparts => h.not_operation parts (hparts.trans hf),
    fun parts hparts => h.not_empty parts (hparts.trans hf),
    fun s hs => h.not_inequality s (hs.trans hf)⟩

/-- The children of a legible expression are legible. -/
theorem Legible.of_mem_children (h : Legible e) (hf : f ∈ e.children) : Legible f :=
  h.of_occurs (occurs_of_mem_children hf)

/-- An expression is legible if its children are, and it is neither a concatenation of what cannot
be told apart nor a negation of text that begins with an equals sign. -/
theorem legible_of_children (hchildren : ∀ f ∈ e.children, Legible f)
    (hparts : ∀ parts, e = .concat parts →
      (∀ f ∈ parts, f.isOperation = false) ∧ .quoted "" ∉ parts)
    (hnot : ∀ s, e = .not (.literal s) → s.toList.head? ≠ some '=') : Legible e where
  -- A subexpression is the tree itself or occurs in one of its children.
  not_operation parts hoccurs := by
    rcases occurs_iff.1 hoccurs with he | ⟨f, hf, hoccurs⟩
    · exact (hparts parts he.symm).1
    · exact (hchildren f hf).not_operation parts hoccurs
  not_empty parts hoccurs := by
    rcases occurs_iff.1 hoccurs with he | ⟨f, hf, hoccurs⟩
    · exact (hparts parts he.symm).2
    · exact (hchildren f hf).not_empty parts hoccurs
  not_inequality s hoccurs := by
    rcases occurs_iff.1 hoccurs with he | ⟨f, hf, hoccurs⟩
    · exact hnot s he.symm
    · exact (hchildren f hf).not_inequality s hoccurs

/-- Behind a legible `!` there is no `=`. -/
theorem head_render_ne_equals (h : Spelled e) (hlegible : Legible (.not e)) :
    ∀ c ∈ (render e).toList.head?, c ≠ '=' := by
  intro c hc
  by_cases hliteral : ∃ s, e = .literal s
  · obtain ⟨s, rfl⟩ := hliteral
    rw [render] at hc
    rintro rfl
    exact hlegible.not_inequality s .self hc
  · obtain ⟨d, hd, hhead⟩ := head_render h fun s hs => hliteral ⟨s, hs⟩
    rw [hhead] at hc
    cases hc
    exact (of_mem_beginnings hd).2

/-- The parts of a legible concatenation are pieces of a template. -/
theorem isPiece_of_mem_parts (hspelled : Spelled (.concat parts)) (hjoined : Joined parts)
    (hlegible : Legible (.concat parts)) : ∀ e ∈ parts, IsPiece e := by
  intro e he
  -- A joined part is neither a literal nor a concatenation, a legible one is no operation.
  have hpart := hjoined.isPart e he
  have hoperation := hlegible.not_operation parts .self e he
  cases hspelled.of_concat e he with
  | literal => exact absurd rfl (hpart.1 _)
  | @text s hfree =>
    refine .text ?_ hfree
    rintro rfl
    exact hlegible.not_empty parts .self he
  | piece hpiece => exact hpiece
  | concat => exact absurd rfl (hpart.2 _)
  | not | binary | call => cases hoperation

/-! ## Written operands -/

/-- Blank tokens may stand in front of an operand. -/
theorem unary_append {b : List Token} (hb : Blanks b) (h : Unary ts e) : Unary (b ++ ts) e := by
  cases h with
  | not hns hts =>
    rw [← List.append_assoc]
    exact .not (spaced_append hb hns) hts
  | single hb' hts =>
    rw [← List.append_assoc]
    exact .single (List.forall_mem_append.2 ⟨hb, hb'⟩) hts
  | joined hb' hts hus =>
    rw [← List.append_assoc, ← List.append_assoc]
    exact .joined (List.forall_mem_append.2 ⟨hb, hb'⟩) hts hus

/-- What stands behind prefix operators is a right operand of any level. -/
theorem operand_of_unary {p : Precedence} (h : Unary ts e) : Operand p ts e := by
  cases hp : p.tighter with
  | none => exact .unary hp h
  | some q => exact .tighter hp (operation_of_unary h)

/-- What has nothing touching it is an operand. -/
theorem unary_of_primary (h : Primary ts e) : Unary ts e :=
  .single (b := []) nofun h

/-- The symbol of an operator is a token of its own. -/
theorem ofText_symbol (op : BinaryOp) :
    ∃ k, Token.ofText op.symbol = [⟨k, op.symbol⟩] ∧ Infix op.precedence k op := by
  cases op
  · exact ⟨_, by decide +kernel, .equals⟩
  · exact ⟨_, by decide +kernel, .notEquals⟩
  · exact ⟨_, by decide +kernel, .less⟩
  · exact ⟨_, by decide +kernel, .lessOrEqual⟩
  · exact ⟨_, by decide +kernel, .greater⟩
  · exact ⟨_, by decide +kernel, .greaterOrEqual⟩
  · exact ⟨_, by decide +kernel, .and⟩
  · exact ⟨_, by decide +kernel, .or⟩

/-- The name of a function is one token. -/
theorem ofText_name (f : Builtin) : Token.ofText f.name = [⟨.word, f.name⟩] := by
  cases f <;> decide +kernel

/-- A function is found by its name. -/
theorem ofName?_name (f : Builtin) : Builtin.ofName? f.name = some f := by
  cases f <;> decide +kernel

/-- The symbol of an operator holds no blank. -/
theorem not_isBlank_symbol (op : BinaryOp) :
    ∀ c ∈ op.symbol.toList, Text.isBlank c = false := by
  have hall : op.symbol.toList.all (fun c => !Text.isBlank c) = true := by
    cases op <;> decide +kernel
  simpa using hall

/-- The tokens of a written operation: an operator between two spaces, in brackets. -/
theorem ofText_binary (op : BinaryOp) {l r : String} (hl : Text.IsTrimmed l.toList)
    (hr : Text.IsTrimmed r.toList) :
    Token.ofText ("(" ++ l ++ " " ++ op.symbol ++ " " ++ r ++ ")") =
      ⟨.openBracket, "("⟩ :: (Token.ofText l ++ (⟨.blank, " "⟩ :: Token.ofText op.symbol) ++
        (⟨.blank, " "⟩ :: Token.ofText r) ++ [⟨.closeBracket, ")"⟩]) := by
  have hchars : ("(" ++ l ++ " " ++ op.symbol ++ " " ++ r ++ ")").toList =
      '(' :: ((l.toList ++ ' ' :: (op.symbol.toList ++ ' ' :: r.toList)) ++ [')']) := by
    simp
  have hne : op.symbol.toList ≠ [] := by cases op <;> decide +kernel
  -- The symbol is never empty and starts with no blank, so the blanks around it are their own
  -- tokens.
  have hhead : ∀ c ∈ (op.symbol.toList ++ ' ' :: r.toList).head?, Text.isBlank c = false := by
    rw [List.head?_append_of_ne_nil _ hne]
    exact fun c hc => not_isBlank_symbol op c (List.mem_of_mem_head? hc)
  rw [Token.ofText, hchars, Token.ofChars_cons_delimiter (k := .openBracket) rfl,
    Token.ofChars_append_delimiter (k := .closeBracket) rfl, Token.ofChars_append_space hl.2 hhead,
    Token.ofChars_append_space
      (fun c hc => not_isBlank_symbol op c (List.mem_of_getLast? hc)) hr.1, Token.ofChars]
  simp only [Token.ofText, List.append_assoc, List.cons_append]
  rfl

/-- The tokens of a written call. -/
theorem ofText_call (f : Builtin) (s : String) :
    Token.ofText (f.name ++ "(" ++ s ++ ")") =
      ⟨.word, f.name⟩ :: ⟨.openBracket, "("⟩ :: (Token.ofText s ++ [⟨.closeBracket, ")"⟩]) := by
  have hchars : (f.name ++ "(" ++ s ++ ")").toList =
      f.name.toList ++ '(' :: (s.toList ++ [')']) := by
    simp
  have hname : Token.ofChars f.name.toList = [⟨.word, f.name⟩] := ofText_name f
  rw [Token.ofText, hchars, Token.ofChars_append_delimiter (k := .openBracket) rfl,
    Token.ofChars_append_delimiter (k := .closeBracket) rfl, hname, Token.ofChars]
  rfl

/-- The tokens of a written negation. -/
theorem ofText_not (hs : ∀ c ∈ s.toList.head?, c ≠ '=') :
    Token.ofText ("!" ++ s) = ⟨.not, "!"⟩ :: Token.ofText s := by
  have hchars : ("!" ++ s).toList = '!' :: s.toList := by simp
  rw [Token.ofText, hchars, Token.ofChars_cons_not hs]
  rfl

-- Without the hypothesis another operator is read.
example : Token.ofText "!=a" = [⟨.notEquals, "!="⟩, ⟨.word, "a"⟩] := by
  decide +kernel

/-- A template in quotes is an operand. -/
theorem unary_quotes (h : Template .quote (Token.ofText s) parts) :
    Unary (Token.ofText ("'" ++ s ++ "'")) (.concat parts) := by
  rw [ofText_quotes]
  exact unary_of_primary (.quoted h)

/-- A text in quotes is read as a concatenation of at most one part. -/
theorem unary_render_quoted (h : IsFree (s.toList.map some)) :
    ∃ f, Unary (Token.ofText (render (.quoted s))) f ∧ normalize f = .quoted s := by
  rw [render]
  refine ⟨_, unary_quotes (.text (plain_of_isFree h)), ?_⟩
  -- Empty text leaves no part behind, any other text one.
  by_cases hs : s = ""
  · rw [hs, ofText_empty]
    rfl
  · rw [textPart_ofText hs]
    rfl

/-- The written form of an operand spells an operand with the same normal form. -/
theorem unary_render (hspelled : Spelled e) (hnormal : IsNormal e) (hlegible : Legible e) :
    ∃ f, Unary (Token.ofText (render e)) f ∧ normalize f = e := by
  -- On how the expression is spelled: only operations hold further operands, and templates are
  -- read back part by part.
  induction hspelled with
  | @literal s hs =>
    rw [render, hs]
    exact ⟨_, unary_of_primary .literal, rfl⟩
  | text hfree => exact unary_render_quoted hfree
  | @piece e hpiece =>
    cases htext : e.plainText? with
    | none => exact ⟨e, unary_of_primary (.reference (reference_render hpiece htext)),
        hnormal.normalize_eq⟩
    | some s =>
      cases hpiece with
      | text _ hfree => exact unary_render_quoted hfree
      | property | metadata | items | projection => cases htext
  | @concat parts hparts hfree _ =>
    have hsame := hnormal.normalize_eq
    cases hnormal with
    | concat _ hjoined _ =>
      have hpieces := isPiece_of_mem_parts (.concat hparts hfree) hjoined hlegible
      rw [render]
      exact ⟨.concat parts, unary_quotes (template_renderParts hpieces hjoined fun e he =>
        reference_render (hpieces e he)), hsame⟩
  | @not e hoperand ih =>
    cases hnormal with
    | not hnormal =>
      obtain ⟨f, hf, rfl⟩ := ih hnormal (hlegible.of_mem_children List.mem_cons_self)
      refine ⟨.not f, ?_, by rw [normalize]⟩
      rw [render, ofText_not (head_render_ne_equals hoperand hlegible)]
      exact .not (spaced_singleton _ _) hf
  | @binary op l r hl hr ihl ihr =>
    cases hnormal with
    | binary hnormall hnormalr =>
      obtain ⟨l', hl', rfl⟩ := ihl hnormall (hlegible.of_mem_children (by simp [children]))
      obtain ⟨r', hr', rfl⟩ := ihr hnormalr (hlegible.of_mem_children (by simp [children]))
      obtain ⟨k, htokens, hoperator⟩ := ofText_symbol op
      refine ⟨.binary op l' r', ?_, by rw [normalize]⟩
      rw [render, ofText_binary op (isTrimmed_render hl) (isTrimmed_render hr), htokens]
      have hoperation := Grammar.Operation.binary (operation_of_unary hl') hoperator
        (spaced_space _ op.symbol) (operand_of_unary (unary_append blanks_space hr'))
      -- The brackets take operators of every level.
      have hheight : op.precedence.height ≤ Precedence.disjunction.height := by
        cases op <;> decide
      exact unary_of_primary (.bracketed (operation_of_height_le hoperation hheight)
        (spaced_singleton _ _))
  | @call f e hargument ih =>
    cases hnormal with
    | call hnormal =>
      obtain ⟨e', he', rfl⟩ := ih hnormal (hlegible.of_mem_children List.mem_cons_self)
      refine ⟨.call f e', ?_, by rw [normalize]⟩
      rw [render, ofText_call]
      exact unary_of_primary (.call (ofName?_name f) (operation_of_unary he')
        (spaced_singleton _ _))

/-! ## Written conditions -/

/-- A separator is a token of its own, whatever stands around it. -/
theorem ofText_semicolon (s t : String) :
    Token.ofText (s ++ ";" ++ t) = Token.ofText s ++ ⟨.semicolon, ";"⟩ :: Token.ofText t := by
  have hchars : (s ++ ";" ++ t).toList = s.toList ++ ';' :: t.toList := by simp
  rw [Token.ofText, hchars, Token.ofChars_append_delimiter (k := .semicolon) rfl]
  rfl

/-- What a written form spells behind the first element of a list. -/
theorem elements_render
    (h : ∀ e ∈ es, ∃ f, Unary (Token.ofText (render e)) f ∧ normalize f = e) :
    ∃ us fs, Elements us fs ∧ fs.map normalize = es ∧
      ∀ s, Token.ofText (String.intercalate ";" (s :: renderElements es)) =
        Token.ofText s ++ us := by
  -- On the elements; the text in front of the first semicolon is kept open for the induction.
  induction es with
  | nil =>
    refine ⟨[], [], .nil, rfl, fun s => ?_⟩
    rw [renderElements, String.intercalate_singleton, List.append_nil]
  | cons e es ih =>
    rw [List.forall_mem_cons] at h
    obtain ⟨⟨f, hf, hfe⟩, h⟩ := h
    obtain ⟨us, fs, hus, hfs, htokens⟩ := ih h
    refine ⟨_, f :: fs, .cons (spaced_singleton .semicolon ";") (operation_of_unary hf) hus, ?_,
      fun s => ?_⟩
    · rw [List.map_cons, hfe, hfs]
    · rw [renderElements, String.intercalate_cons_cons, ofText_semicolon, htokens,
        List.append_assoc, List.singleton_append]

/-- No normal form of what is spelled is a list. -/
theorem Spelled.ne_list (h : Spelled e) (inner : List Expr) : e ≠ .list inner := by
  rintro rfl
  cases h with
  | piece hpiece => cases hpiece

/-- Elements of which none is normalized to a list are normalized one by one. -/
theorem normalizeElements_eq_map (h : ∀ e ∈ es, ∀ inner, normalize e ≠ .list inner) :
    normalizeElements es = es.map normalize := by
  induction es with
  | nil => rfl
  | cons e es ih =>
    rw [List.forall_mem_cons] at h
    rw [normalizeElements, spliceElements_of_ne_list h.1, ih h.2, List.map_cons,
      List.singleton_append]

/-- What a text spells in normal form is one expression or a list of several. -/
theorem spelled_normalize (h : ofText s = .ok e) :
    Spelled (normalize e) ∨ ∃ f g es, normalize e = .list (f :: g :: es) ∧
      ∀ x ∈ f :: g :: es, Spelled x := by
  rcases spelled_of_condition (condition_of_ofTokens h) (lexed_ofText s) with
    hspelled | ⟨f, g, es, rfl, hspelled⟩
  · exact .inl hspelled.normalize
  · refine .inr ⟨normalize f, normalize g, es.map normalize, ?_, ?_⟩
    · rw [normalize, normalizeElements_eq_map fun x hx => (hspelled x hx).normalize.ne_list]
      rfl
    · intro x hx
      obtain ⟨y, hy, rfl⟩ := List.mem_map.1 (show x ∈ (f :: g :: es).map normalize from hx)
      exact (hspelled y hy).normalize

/-- The written form of what a text spells in normal form is read as an expression with this normal
form, if it is legible. -/
theorem ofText_render (h : ofText s = .ok e) (hlegible : Legible (normalize e)) :
    ∃ f, ofText (render (normalize e)) = .ok f ∧ normalize f = normalize e := by
  have hnormal := isNormal_normalize e
  have hspelled := spelled_normalize h
  -- Nothing else about `e` is used: its normal form is normal, spelled and legible.
  generalize normalize e = e at hnormal hspelled hlegible
  rcases hspelled with hspelled | ⟨x, y, es, rfl, hspelled⟩
  · obtain ⟨f, hf, hfe⟩ := unary_render hspelled hnormal hlegible
    refine ⟨f, ofTokens_of_condition ?_, hfe⟩
    have hcondition := Condition.single (b := []) (operation_of_unary hf) nofun
    rwa [List.append_nil] at hcondition
  · have hread : ∀ e ∈ x :: y :: es, ∃ f, Unary (Token.ofText (render e)) f ∧ normalize f = e := by
      cases hnormal with
      | list hnormal _ =>
        exact fun e he => unary_render (hspelled e he) (hnormal e he) (hlegible.of_mem_children he)
    rw [List.forall_mem_cons] at hread
    obtain ⟨⟨f, hf, hfe⟩, hmore⟩ := hread
    obtain ⟨us, fs, hus, hfs, htokens⟩ := elements_render hmore
    obtain ⟨g, gs, rfl, hge, hgs⟩ := List.map_eq_cons_iff.1 hfs
    refine ⟨.list (f :: g :: gs), ofTokens_of_condition ?_, ?_⟩
    · rw [render, renderElements, htokens]
      have hcondition := Condition.list (b := []) (operation_of_unary hf) hus nofun
      rwa [List.append_nil] at hcondition
    -- The elements come back one by one, as none of their normal forms is a list.
    · have hall : (f :: g :: gs).map normalize = x :: y :: es := by
        rw [List.map_cons, hfe, hfs]
      have hlist : ∀ e ∈ f :: g :: gs, ∀ inner, normalize e ≠ .list inner := fun e he =>
        (hspelled _ (hall ▸ List.mem_map_of_mem he)).ne_list
      rw [normalize, normalizeElements_eq_map hlist, hall]

/-- A reference that touches a quoted text is read into one concatenation with it. -/
theorem ofText_adjacent :
    ofText "!a == 'x'$(b)" = .ok (.binary .equals (.not (.literal "a"))
      (.concat [.concat [.quoted "x"], .property "b"])) := by
  -- Derived by the grammar, bottom up.
  have htokens : Token.ofText "!a == 'x'$(b)" =
      [⟨.not, "!"⟩] ++ [⟨.word, "a"⟩] ++ [⟨.blank, " "⟩, ⟨.equals, "=="⟩] ++
        ([⟨.blank, " "⟩] ++ (⟨.quote, "'"⟩ :: ([⟨.word, "x"⟩] ++ [⟨.quote, "'"⟩])) ++
          (⟨.dollar, "$"⟩ :: [⟨.openBracket, "("⟩, ⟨.word, "b"⟩, ⟨.closeBracket, ")"⟩] ++ [])) := by
    decide +kernel
  have hleft : Unary ([⟨.not, "!"⟩] ++ [⟨.word, "a"⟩]) (.not (.literal "a")) :=
    .not (spaced_singleton _ _) (unary_of_primary .literal)
  have hquoted : Primary (⟨.quote, "'"⟩ :: ([⟨.word, "x"⟩] ++ [⟨.quote, "'"⟩]))
      (.concat [.quoted "x"]) :=
    .quoted (.text ⟨by decide, .singleton _⟩)
  have hreference : Reference
      (⟨.dollar, "$"⟩ :: ⟨.openBracket, "("⟩ :: ([⟨.word, "b"⟩] ++ [⟨.closeBracket, ")"⟩]))
      (.property "b") :=
    .property (.mk (k := .word) (by decide) (spaced_singleton _ _)) (spaced_singleton _ _)
  have hadjacent := Adjacent.cons (.inr (.inl rfl)) (.reference hreference) .nil
  have hright := Unary.joined blanks_space hquoted hadjacent
  have hoperation := Grammar.Operation.binary (operation_of_unary hleft) .equals
    (spaced_space _ "==") (operand_of_unary hright)
  have hlevel : Precedence.equality.height ≤ Precedence.disjunction.height := by decide
  have hcondition := Condition.single (b := []) (operation_of_height_le hoperation hlevel) nofun
  rw [List.append_nil] at hcondition
  rw [ofText, htokens]
  exact ofTokens_of_condition hcondition

/-- A text and a reference that touch are written in one pair of quotes. -/
theorem ofText_render_adjacent :
    ∃ e f, ofText "!a == 'x'$(b)" = .ok e ∧ render (normalize e) = "(!a == 'x$(b)')" ∧
      ofText "(!a == 'x$(b)')" = .ok f ∧ normalize f = normalize e := by
  -- Legibility from the leaves up; it asks something of joined parts and of `!` only.
  have hliteral : Legible (.literal "a") := legible_of_children nofun nofun nofun
  have hnot : Legible (.not (.literal "a")) := by
    refine legible_of_children (by simpa [children] using hliteral) nofun ?_
    rintro _ ⟨⟩
    decide
  have htext : Legible (.quoted "x") := legible_of_children nofun nofun nofun
  have hreference : Legible (.property "b") := legible_of_children nofun nofun nofun
  have hparts : Legible (.concat [.quoted "x", .property "b"]) := by
    refine legible_of_children (by simpa [children] using ⟨htext, hreference⟩) ?_ nofun
    rintro _ ⟨⟩
    decide
  have hlegible : Legible (normalize (.binary .equals (.not (.literal "a"))
      (.concat [.concat [.quoted "x"], .property "b"]))) :=
    legible_of_children (List.forall_mem_cons.2 ⟨hnot, List.forall_mem_singleton.2 hparts⟩)
      nofun nofun
  obtain ⟨f, hf, hsame⟩ := ofText_render ofText_adjacent hlegible
  exact ⟨_, f, ofText_adjacent, by decide +kernel, hf, hsame⟩

end BuildEngine.Expr
