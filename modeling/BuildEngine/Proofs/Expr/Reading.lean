import BuildEngine.Expr.Parser
import BuildEngine.Proofs.Expr.Grammar

/-!
# What the readers do

A reader returns a value and the rest of its input, with a proof that something was consumed.
`Reads` forgets the proof, and the `_iff` lemmas say for every reader which values and rests it
yields in terms of the readers it calls. Proofs about readers start from here and do not open the
readers again.
-/

namespace BuildEngine.Expr

open Grammar

variable {α β : Type} {m n : Nat} {a : α} {b : β} {input rest : Input} {e f : Expr}
  {parts : List Expr} {s : String}

/-- A reader finds a value and leaves a rest. -/
def Reads (x : Reading α n) (a : α) (rest : Input) : Prop :=
  ∃ h, x = .ok ⟨a, rest, h⟩

/-- A reader takes something of its input. -/
theorem Reads.length_lt {x : Reading α n} (h : Reads x a rest) : rest.length < n :=
  h.1

/-- A reader comes to one value and one rest. -/
theorem Reads.unique {x : Reading α n} {a' : α} {rest' : Input} (h : Reads x a rest)
    (h' : Reads x a' rest') : a = a' ∧ rest = rest' := by
  obtain ⟨_, rfl⟩ := h
  obtain ⟨_, h'⟩ := h'
  cases h'
  exact ⟨rfl, rfl⟩

/-- A reader that is done finds its value. -/
@[simp]
theorem reads_ok {r : Read α n} : Reads (.ok r) a rest ↔ r.value = a ∧ r.rest = rest := by
  obtain ⟨a', rest', h⟩ := r
  constructor
  · rintro ⟨_, hok⟩
    cases hok
    exact ⟨rfl, rfl⟩
  · rintro ⟨rfl, rfl⟩
    exact ⟨h, rfl⟩

/-- A reader that returns a value finds it. -/
@[simp]
theorem reads_pure {r : Read α n} : Reads (pure r) a rest ↔ r.value = a ∧ r.rest = rest :=
  reads_ok

/-- A reader that fails finds nothing. -/
@[simp]
theorem not_reads_error {err : ParseError} : ¬ Reads (α := α) (n := n) (.error err) a rest := by
  rintro ⟨_, h⟩
  cases h

/-- Two readers one after the other. -/
theorem reads_bind {x : Reading α m} {k : Read α m → Reading β n} :
    Reads (x >>= k) b rest ↔
      ∃ a r, ∃ h : r.length < m, Reads x a r ∧ Reads (k ⟨a, r, h⟩) b rest := by
  constructor
  · intro hreads
    cases x with
    | error err => exact absurd hreads not_reads_error
    | ok r => exact ⟨r.value, r.rest, r.length_lt, ⟨r.length_lt, rfl⟩, hreads⟩
  · rintro ⟨a, r, h, ⟨-, rfl⟩, hreads⟩
    exact hreads

/-- That something was consumed need not be said where a rest is spoken of. -/
theorem length_lt_and_reads_iff {x : Reading α n} {p : Prop} :
    rest.length < n ∧ Reads x a rest ∧ p ↔ Reads x a rest ∧ p :=
  and_iff_right_of_imp fun h => h.1.length_lt

/-! ## Single tokens -/

/-- Behind blanks there are no blanks to skip. -/
@[simp]
theorem skipBlank_skipBlank (input : Input) : skipBlank (skipBlank input) = skipBlank input := by
  induction input with
  | nil => rfl
  | cons t input ih =>
    by_cases h : t.1.kind = .blank
    · have hskip : skipBlank (t :: input) = skipBlank input := by simp [skipBlank, h]
      rw [hskip, ih]
    · have hskip : skipBlank (t :: input) = t :: input := by simp [skipBlank, h]
      rw [hskip, hskip]

/-- The next token that is not blank has this kind and this text, and the rest follows it. -/
def Next (k : TokenKind) (input : Input) (s : String) (rest : Input) : Prop :=
  ∃ i, skipBlank input = (⟨k, s⟩, i) :: rest

/-- The next token does not depend on blanks in front of it. -/
theorem next_congr {k : TokenKind} {input' : Input} (h : skipBlank input = skipBlank input') :
    Next k input s rest ↔ Next k input' s rest := by
  unfold Next
  rw [h]

/-- Less is left behind the next token. -/
theorem Next.length_lt {k : TokenKind} (h : Next k input s rest) :
    rest.length < input.length := by
  obtain ⟨i, h⟩ := h
  have hle := length_skipBlank_le input
  rw [h, List.length_cons] at hle
  omega

/-- What is expected is found if it comes next. -/
theorem reads_expect_iff {accepted : TokenKind → Bool} {what : Expectation} :
    Reads (expect accepted what input) s rest ↔
      ∃ k, accepted k = true ∧ Next k input s rest := by
  unfold expect Next
  split
  -- Nothing is left to read, or the next token is of a kind that is accepted, or it is not.
  · next h => simp [h]
  · next t i r h =>
    simp only [h, List.cons.injEq, Prod.mk.injEq]
    split
    · next hkind =>
      rw [reads_ok]
      constructor
      · rintro ⟨rfl, rfl⟩
        exact ⟨t.kind, hkind, i, ⟨rfl, rfl⟩, rfl⟩
      · rintro ⟨k, -, i, ⟨rfl, rfl⟩, rfl⟩
        exact ⟨rfl, rfl⟩
    · next hkind =>
      refine ⟨fun h => absurd h not_reads_error, ?_⟩
      rintro ⟨k, haccepted, i, ⟨rfl, rfl⟩, rfl⟩
      exact absurd haccepted hkind

/-- A reference opens with a bracket at once. -/
theorem reads_openReference_iff {u : Unit} :
    Reads (openReference input) u rest ↔ ∃ s i, input = (⟨.openBracket, s⟩, i) :: rest := by
  unfold openReference
  -- The bracket stands at once, no blank is skipped in front of it.
  split
  · simp
  · next t i r =>
    obtain ⟨k, text⟩ := t
    dsimp only
    split
    · next hkind =>
      subst hkind
      simp
    · next hkind =>
      refine ⟨fun h => absurd h not_reads_error, ?_⟩
      rintro ⟨s, i, h⟩
      cases h
      exact absurd rfl hkind

/-! ## The tokens of an input -/

/-- The tokens of an input without their indices. -/
def tokens (input : Input) : List Token :=
  input.map Prod.fst

/-- The tokens of an input are those in its places. -/
theorem tokens_cons (t : Token × Nat) (input : Input) : tokens (t :: input) = t.1 :: tokens input :=
  rfl

/-- A first token has a place, and the others are behind it. -/
theorem tokens_eq_cons_iff {t : Token} {ts : List Token} :
    tokens input = t :: ts ↔ ∃ i r, input = (t, i) :: r ∧ tokens r = ts := by
  unfold tokens
  rw [List.map_eq_cons_iff]
  constructor
  · rintro ⟨⟨t, i⟩, r, rfl, rfl, rfl⟩
    exact ⟨i, r, rfl, rfl⟩
  · rintro ⟨i, r, rfl, rfl⟩
    exact ⟨(t, i), r, rfl, rfl, rfl⟩

/-- Without tokens there is no input. -/
theorem tokens_eq_nil_iff : tokens input = [] ↔ input = [] :=
  List.map_eq_nil_iff

/-- Numbered tokens are the tokens. -/
theorem tokens_zipIdx (ts : List Token) : tokens ts.zipIdx = ts :=
  List.zipIdx_map_fst 0 ts

/-- A bracket follows if it is the first token. -/
theorem startsBracket_iff :
    startsBracket input = true ↔ ∃ t ∈ (tokens input).head?, t.kind = .openBracket := by
  cases input with
  | nil => simp [startsBracket, tokens]
  | cons t input => simp [startsBracket, tokens]

/-- Skipping blank tokens takes blank tokens away. -/
theorem exists_blanks (input : Input) :
    ∃ b, Blanks b ∧ tokens input = b ++ tokens (skipBlank input) := by
  refine ⟨tokens (input.takeWhile fun t => t.1.kind = .blank), ?_, ?_⟩
  · intro t ht
    obtain ⟨u, hu, rfl⟩ := List.mem_map.1 ht
    exact of_decide_eq_true (List.all_eq_true.1 List.all_takeWhile u hu)
  · unfold tokens skipBlank
    rw [← List.map_append, List.takeWhile_append_dropWhile]

/-- Blank tokens in front do not matter where blank tokens are skipped. -/
theorem exists_skipBlank_eq {b us : List Token} (hb : Blanks b) (h : tokens input = b ++ us) :
    ∃ r, tokens r = us ∧ skipBlank input = skipBlank r := by
  induction b generalizing input with
  | nil => exact ⟨input, h, rfl⟩
  | cons t b ih =>
    obtain ⟨i, r, rfl, hr⟩ := tokens_eq_cons_iff.1 h
    obtain ⟨r', hr', hskip⟩ := ih (fun u hu => hb u (List.mem_cons_of_mem t hu)) hr
    have ht : t.kind = .blank := hb t List.mem_cons_self
    exact ⟨r', hr', by rw [← hskip]; simp [skipBlank, ht]⟩

/-- Nothing is left behind blanks if all is blank. -/
theorem skipBlank_eq_nil_iff : skipBlank input = [] ↔ Blanks (tokens input) := by
  constructor
  · intro h
    obtain ⟨b, hb, heq⟩ := exists_blanks input
    rw [heq, h]
    simpa [tokens] using hb
  · intro h
    obtain ⟨r, hr, hskip⟩ := exists_skipBlank_eq h (List.append_nil _).symm
    rw [hskip, tokens_eq_nil_iff.1 hr]
    rfl

/-- Nothing is skipped in front of a token that is not blank. -/
theorem skipBlank_cons {t : Token} {i : Nat} (h : t.kind ≠ .blank) :
    skipBlank ((t, i) :: input) = (t, i) :: input := by
  simp [skipBlank, h]

/-- The next token stands in front of the rest, with blanks before it. -/
theorem Next.spaced {k : TokenKind} (h : Next k input s rest) :
    ∃ ts, Spaced k ts s ∧ tokens input = ts ++ tokens rest := by
  obtain ⟨i, h⟩ := h
  obtain ⟨b, hb, heq⟩ := exists_blanks input
  refine ⟨b ++ [⟨k, s⟩], .mk hb, ?_⟩
  rw [heq, h, List.append_assoc]
  rfl

/-- A token with blanks before it comes next. -/
theorem exists_next {k : TokenKind} {ts us : List Token} (hts : Spaced k ts s) (hk : k ≠ .blank)
    (h : tokens input = ts ++ us) : ∃ rest, Next k input s rest ∧ tokens rest = us := by
  obtain ⟨hb⟩ := hts
  rw [List.append_assoc] at h
  obtain ⟨r, hr, hskip⟩ := exists_skipBlank_eq hb h
  obtain ⟨i, rest, rfl, hrest⟩ := tokens_eq_cons_iff.1 hr
  rw [skipBlank_cons hk] at hskip
  exact ⟨rest, ⟨i, hskip⟩, hrest⟩

/-! ## References and templates -/

/-- A reference is read as a bracket, a name and a bracket. -/
theorem reads_reference_iff {make : String → Expr} :
    Reads (reference make input) e rest ↔
      ∃ s i r₁ k name r₂ c, input = (⟨.openBracket, s⟩, i) :: r₁ ∧ isNameKind k = true ∧
        Next k r₁ name r₂ ∧ Next .closeBracket r₂ c rest ∧ e = make name := by
  unfold reference
  simp only [reads_bind, reads_pure, length_lt_and_reads_iff, exists_prop]
  simp only [reads_openReference_iff, reads_expect_iff, decide_eq_true_eq, exists_eq_left]
  constructor
  · rintro ⟨-, r₁, ⟨s, i, h₁⟩, name, r₂, ⟨k, hk, h₂⟩, c, r₃, h₃, rfl, rfl⟩
    exact ⟨s, i, r₁, k, name, r₂, c, h₁, hk, h₂, h₃, rfl⟩
  · rintro ⟨s, i, r₁, k, name, r₂, c, rfl, hk, h₂, h₃, rfl⟩
    exact ⟨(), r₁, ⟨s, i, rfl⟩, name, r₂, ⟨k, hk, h₂⟩, c, rest, h₃, rfl, rfl⟩

/-- A reference to items is read as a name in brackets, with a projection behind the name or not. -/
theorem reads_itemReference_iff :
    Reads (itemReference input) e rest ↔
      ∃ s i r₁ k name r₂, input = (⟨.openBracket, s⟩, i) :: r₁ ∧ isNameKind k = true ∧
        Next k r₁ name r₂ ∧
          ((∃ c, Next .closeBracket r₂ c rest ∧ e = .items name) ∨
            ∃ a r₃ q r₄ parts close r₅ c, Next .arrow r₂ a r₃ ∧ Next .quote r₃ q r₄ ∧
              Reads (template .quote r₄) parts (close :: r₅) ∧ Next .closeBracket r₅ c rest ∧
              e = .projection name parts) := by
  rw [itemReference]
  simp only [reads_bind, reads_openReference_iff, reads_expect_iff]
  constructor
  · rintro ⟨_, r₁, _, ⟨s, i, h₁⟩, name, r₂, _, ⟨k, hk, h₂⟩, hreads⟩
    refine ⟨s, i, r₁, k, name, r₂, h₁, hk, h₂, ?_⟩
    -- Every token asked for is found, or the parse is no success and there is nothing to show.
    split at hreads
    · next t j r₃ h₃ =>
      obtain ⟨kind, text⟩ := t
      dsimp only at hreads
      split at hreads
      · next hkind =>
        subst hkind
        simp only [reads_bind, reads_expect_iff, decide_eq_true_eq, exists_eq_left] at hreads
        obtain ⟨q, r₄, _, h₄, parts, r₅, _, h₅, hreads⟩ := hreads
        split at hreads
        · exact absurd hreads not_reads_error
        · next close r₆ _ _ =>
          simp only [reads_bind, reads_expect_iff, decide_eq_true_eq, exists_eq_left,
            reads_pure] at hreads
          obtain ⟨c, r₇, -, h₇, rfl, rfl⟩ := hreads
          exact .inr ⟨text, r₃, q, r₄, parts, close, r₆, c, ⟨j, h₃⟩, h₄, h₅, h₇, rfl⟩
      · simp only [reads_bind, reads_expect_iff, decide_eq_true_eq, exists_eq_left,
          reads_pure] at hreads
        obtain ⟨c, r₄, -, h₄, rfl, rfl⟩ := hreads
        exact .inl ⟨c, (next_congr (skipBlank_skipBlank r₂)).1 h₄, rfl⟩
    · exact absurd hreads not_reads_error
  · rintro ⟨s, i, r₁, k, name, r₂, rfl, hk, h₂, h⟩
    refine ⟨(), r₁, Nat.lt_succ_self _, ⟨s, i, rfl⟩, name, r₂, h₂.length_lt, ⟨k, hk, h₂⟩, ?_⟩
    -- Back: the tokens that stand there choose the branch, and each step of it reads one of them.
    rcases h with ⟨c, h₃, rfl⟩ | ⟨a, r₃, q, r₄, parts, close, r₅, c, h₃, h₄, h₅, h₆, rfl⟩
    · -- `closeBracket` skips the blanks a second time, which changes nothing.
      have hclose := (next_congr (skipBlank_skipBlank r₂)).2 h₃
      obtain ⟨j, hj⟩ := h₃
      split
      · next hskip =>
        rw [hj] at hskip
        cases hskip
        simp only [reduceCtorEq, if_false, reads_bind, reads_expect_iff, decide_eq_true_eq,
          exists_eq_left]
        exact ⟨c, rest, hclose.length_lt, hclose, reads_pure.2 ⟨rfl, rfl⟩⟩
      · next hskip => rw [hj] at hskip; cases hskip
    · obtain ⟨j, hj⟩ := h₃
      split
      · next hskip =>
        rw [hj] at hskip
        cases hskip
        simp only [if_true, reads_bind, reads_expect_iff, decide_eq_true_eq, exists_eq_left]
        refine ⟨q, r₄, h₄.length_lt, h₄, parts, close :: r₅, h₅.length_lt, h₅, ?_⟩
        simp only [reads_bind, reads_expect_iff, decide_eq_true_eq, exists_eq_left]
        exact ⟨c, rest, h₆.length_lt, h₆, reads_pure.2 ⟨rfl, rfl⟩⟩
      · next hskip => rw [hj] at hskip; cases hskip

/-- Reads what follows a sigil. -/
def afterSigil (k : TokenKind) (input : Input) : Reading Expr input.length :=
  match k with
  | .dollar => reference .property input
  | .percent => reference .metadata input
  | _ => itemReference input

/-- At the end a template is empty. -/
theorem reads_template_nil_iff {stop : TokenKind} :
    Reads (template stop []) parts rest ↔ parts = [] ∧ rest = [] := by
  rw [template, reads_ok]
  exact and_congr eq_comm eq_comm

section Template

variable {stop : TokenKind} {t : Token} {i : Nat}

/-- A template ends in front of the token it is read up to. -/
theorem reads_template_stop_iff (hstop : t.kind = stop) :
    Reads (template stop ((t, i) :: input)) parts rest ↔
      parts = [] ∧ rest = (t, i) :: input := by
  rw [template, if_pos hstop, reads_ok]
  exact and_congr eq_comm eq_comm

/-- A sigil that a bracket touches begins a reference. -/
theorem reads_template_reference_iff (hstop : t.kind ≠ stop) (hsigil : IsSigil t.kind)
    (hbracket : startsBracket input = true) :
    Reads (template stop ((t, i) :: input)) parts rest ↔
      ∃ e r more, Reads (afterSigil t.kind input) e r ∧ Reads (template stop r) more rest ∧
        parts = e :: more := by
  obtain ⟨k, s⟩ := t
  rw [template, if_neg hstop]
  -- The three kinds of sigil take three branches that differ in the reader they call only.
  rcases hsigil with rfl | rfl | rfl
  all_goals
    simp only [hbracket, reduceCtorEq, decide_true, decide_false, Bool.and_true, if_true,
      Bool.false_eq_true, if_false, reads_bind, reads_pure, length_lt_and_reads_iff,
      exists_prop]
    constructor
    · rintro ⟨e, r, he, more, r', hmore, rfl, rfl⟩
      exact ⟨e, r, more, he, hmore, rfl⟩
    · rintro ⟨e, r, more, he, hmore, rfl⟩
      exact ⟨e, r, he, more, rest, hmore, rfl, rfl⟩

/-- Any other token is text. -/
theorem reads_template_text_iff (hstop : t.kind ≠ stop)
    (htext : ¬ (IsSigil t.kind ∧ startsBracket input = true)) :
    Reads (template stop ((t, i) :: input)) parts rest ↔
      ∃ more, Reads (template stop input) more rest ∧ parts = consTemplateText t.text more := by
  rw [template, if_neg hstop]
  -- The token is no sigil or no bracket follows it, so none of the three branches is taken.
  have hno (k : TokenKind) (hk : IsSigil k) :
      ¬ (decide (t.kind = k) && startsBracket input) = true := by
    intro h
    rw [Bool.and_eq_true, decide_eq_true_eq] at h
    exact htext ⟨h.1 ▸ hk, h.2⟩
  rw [if_neg (hno .dollar (.inl rfl)), if_neg (hno .percent (.inr (.inl rfl))),
    if_neg (hno .at (.inr (.inr rfl)))]
  simp only [reads_bind, reads_pure, length_lt_and_reads_iff, exists_prop]
  constructor
  · rintro ⟨more, r, hmore, rfl, rfl⟩
    exact ⟨more, hmore, rfl⟩
  · rintro ⟨more, hmore, rfl⟩
    exact ⟨more, rest, hmore, rfl, rfl⟩

end Template

/-! ## Operations -/

section Operations

variable {p q : Precedence} {op : BinaryOp} {l : Expr} {es : List Expr}

/-- An operation is read as an operand and what operators add to it. -/
theorem reads_operation_iff :
    Reads (operation p input) e rest ↔
      ∃ l r, Reads (unary input) l r ∧ Reads (operations p l r) e rest := by
  rw [operation]
  simp only [reads_bind, reads_pure, length_lt_and_reads_iff, exists_prop]
  constructor
  · rintro ⟨l, r, hl, e, rest, he, rfl, rfl⟩
    exact ⟨l, r, hl, he⟩
  · rintro ⟨l, r, hl, he⟩
    exact ⟨l, r, hl, e, rest, he, rfl, rfl⟩

/-- A right operand holds operators that are tighter. -/
theorem rightOperand_of_tighter (h : p.tighter = some q) (input : Input) :
    rightOperand p input = operation q input := by
  rw [rightOperand, h]

/-- A right operand of the tightest operators holds no operator. -/
theorem rightOperand_of_tightest (h : p.tighter = none) (input : Input) :
    rightOperand p input = unary input := by
  rw [rightOperand, h]

/-- The operators of a level are told by kind and precedence. -/
theorem infix_iff {k : TokenKind} : Infix p k op ↔ operator? k = some op ∧ op.precedence = p := by
  constructor
  · rintro ⟨⟩ <;> exact ⟨rfl, rfl⟩
  · rintro ⟨hop, rfl⟩
    cases k <;> cases hop <;> constructor

/-- An operator is found if it comes next and is as tight as is asked for. -/
theorem operatorAt?_eq_some_iff :
    operatorAt? p (skipBlank input) = some (op, rest) ↔
      ∃ k s, Next k input s rest ∧ Infix op.precedence k op ∧ op.precedence.height ≤ p.height := by
  unfold Next
  -- The operator has to bind as tightly as the level asks for: both tests of the code are part of
  -- the right side.
  cases skipBlank input with
  | nil => simp [operatorAt?]
  | cons t r =>
    obtain ⟨⟨k, s⟩, i⟩ := t
    simp only [operatorAt?, infix_iff, and_true, List.cons.injEq, Prod.mk.injEq, Token.mk.injEq]
    constructor
    · intro h
      split at h
      · next op' hop =>
        split at h
        · next hle =>
          cases h
          exact ⟨k, s, ⟨i, ⟨⟨rfl, rfl⟩, rfl⟩, rfl⟩, hop, hle⟩
        · cases h
      · cases h
    · rintro ⟨k, s, ⟨i, ⟨⟨rfl, rfl⟩, rfl⟩, rfl⟩, hop, hle⟩
      simp only [hop, if_pos hle]

/-- Operators are read as long as they bind tightly enough. -/
theorem reads_operations_iff :
    Reads (operations p l input) e rest ↔
      (operatorAt? p (skipBlank input) = none ∧ e = l ∧ rest = skipBlank input) ∨
        ∃ k s r op rhs r', Next k input s r ∧ Infix op.precedence k op ∧
          op.precedence.height ≤ p.height ∧ Reads (rightOperand op.precedence r) rhs r' ∧
            Reads (operations p (.binary op l rhs) r') e rest := by
  rw [operations]
  -- No operator of this level follows, or one does and is the operator of the right side.
  split
  · next hnone =>
    rw [reads_ok, hnone]
    constructor
    · rintro ⟨rfl, rfl⟩
      exact .inl ⟨rfl, rfl, rfl⟩
    · rintro (⟨-, rfl, rfl⟩ | ⟨k, s, r, op, rhs, r', hnext, hop, hle, -⟩)
      · exact ⟨rfl, rfl⟩
      · rw [operatorAt?_eq_some_iff.2 ⟨k, s, hnext, hop, hle⟩] at hnone
        cases hnone
  · next op r hsome =>
    simp only [reads_bind, reads_pure, length_lt_and_reads_iff, exists_prop]
    constructor
    · rintro ⟨rhs, r', hrhs, e, rest, he, rfl, rfl⟩
      obtain ⟨k, s, hnext, hop, hle⟩ := operatorAt?_eq_some_iff.1 hsome
      exact .inr ⟨k, s, r, op, rhs, r', hnext, hop, hle, hrhs, he⟩
    · rintro (⟨hnone, -⟩ | ⟨k, s, r', op', rhs, r'', hnext, hop, hle, hrhs, he⟩)
      · rw [hsome] at hnone
        cases hnone
      · rw [operatorAt?_eq_some_iff.2 ⟨k, s, hnext, hop, hle⟩] at hsome
        cases hsome
        exact ⟨rhs, r'', hrhs, e, rest, he, rfl, rfl⟩

/-! ## Operands -/

/-- A negation is read as its sign and what it negates. -/
theorem reads_unary_not_iff {r : Input} (h : Next .not input s r) :
    Reads (unary input) e rest ↔ ∃ f, Reads (unary r) f rest ∧ e = .not f := by
  obtain ⟨i, h⟩ := h
  rw [unary]
  -- The token found is the `!` of the hypothesis, in both cases of the match.
  split
  · next hnil => rw [h] at hnil; cases hnil
  · next hcons =>
    rw [h] at hcons
    cases hcons
    simp only [if_true, reads_bind, reads_pure, length_lt_and_reads_iff, exists_prop]
    constructor
    · rintro ⟨f, r, hf, rfl, rfl⟩
      exact ⟨f, hf, rfl⟩
    · rintro ⟨f, hf, rfl⟩
      exact ⟨f, rest, hf, rfl, rfl⟩

/-- An operand is read as its first part and what touches that. -/
theorem reads_unary_primary_iff {t : Token} {i : Nat} {r : Input}
    (h : skipBlank input = (t, i) :: r) (hnot : t.kind ≠ .not) :
    Reads (unary input) e rest ↔
      ∃ first r₁ more, Reads (primary t i r) first r₁ ∧ Reads (adjacent r₁) more rest ∧
        e = ofAdjacent first more := by
  rw [unary]
  -- The token found is the one of the hypothesis, and it is no `!`.
  split
  · next hnil => rw [h] at hnil; cases hnil
  · next hcons =>
    rw [h] at hcons
    cases hcons
    simp only [if_neg hnot, reads_bind, reads_pure, length_lt_and_reads_iff, exists_prop]
    constructor
    · rintro ⟨first, r₁, hfirst, more, r₂, hmore, rfl, rfl⟩
      exact ⟨first, r₁, more, hfirst, hmore, rfl⟩
    · rintro ⟨first, r₁, more, hfirst, hmore, rfl⟩
      exact ⟨first, r₁, hfirst, more, rest, hmore, rfl, rfl⟩

/-- At the end there is no operand. -/
theorem not_reads_unary (h : skipBlank input = []) : ¬ Reads (unary input) e rest := by
  rw [unary]
  split
  · exact not_reads_error
  · next hcons => rw [h] at hcons; cases hcons

/-- The kinds that continue an operand are those that begin one of its further parts. -/
theorem continuesOperand_iff {k : TokenKind} : continuesOperand k = true ↔ BeginsAdjacent k := by
  cases k <;> simp [continuesOperand, BeginsAdjacent, IsSigil]

/-- What touches an operand is read one after the other. -/
theorem reads_adjacent_cons_iff {t : Token} {i : Nat} (h : BeginsAdjacent t.kind) :
    Reads (adjacent ((t, i) :: input)) es rest ↔
      ∃ e r more, Reads (primary t i input) e r ∧ Reads (adjacent r) more rest ∧
        es = e :: more := by
  rw [adjacent, if_pos (continuesOperand_iff.2 h)]
  simp only [reads_bind, reads_pure, length_lt_and_reads_iff, exists_prop]
  constructor
  · rintro ⟨e, r, he, more, r', hmore, rfl, rfl⟩
    exact ⟨e, r, more, he, hmore, rfl⟩
  · rintro ⟨e, r, more, he, hmore, rfl⟩
    exact ⟨e, r, he, more, rest, hmore, rfl, rfl⟩

/-- What begins no adjacent operand ends them. -/
theorem reads_adjacent_stop_iff (h : ∀ t ∈ input.head?, ¬ BeginsAdjacent t.1.kind) :
    Reads (adjacent input) es rest ↔ es = [] ∧ rest = input := by
  cases input with
  | nil =>
    rw [adjacent, reads_ok]
    exact and_congr eq_comm eq_comm
  | cons t input =>
    obtain ⟨t, i⟩ := t
    rw [adjacent, if_neg (mt continuesOperand_iff.1 (h (t, i) rfl)), reads_ok]
    exact and_congr eq_comm eq_comm

section Primary

variable {i : Nat}

/-- Behind a bracket an operation is read, and the bracket that closes. -/
theorem reads_primary_openBracket_iff :
    Reads (primary ⟨.openBracket, s⟩ i input) e rest ↔
      ∃ r c, Reads (operation .disjunction input) e r ∧ Next .closeBracket r c rest := by
  rw [primary]
  simp only [reads_bind, reads_pure, length_lt_and_reads_iff, exists_prop]
  simp only [reads_expect_iff, decide_eq_true_eq, exists_eq_left]
  constructor
  · rintro ⟨e, r, he, c, r', hclose, rfl, rfl⟩
    exact ⟨r, c, he, hclose⟩
  · rintro ⟨r, c, he, hclose⟩
    exact ⟨e, r, he, c, rest, hclose, rfl, rfl⟩

/-- Behind a quote a template is read, up to the quote that closes. -/
theorem reads_primary_quote_iff :
    Reads (primary ⟨.quote, s⟩ i input) e rest ↔
      ∃ parts close, Reads (template .quote input) parts (close :: rest) ∧ e = .concat parts := by
  rw [primary]
  simp only [reads_bind]
  constructor
  -- Without the closing token the text runs to the end, which is no success.
  · rintro ⟨parts, r₁, _, hparts, hreads⟩
    split at hreads
    · exact absurd hreads not_reads_error
    · next close r₂ _ _ =>
      obtain ⟨rfl, rfl⟩ := reads_pure.1 hreads
      exact ⟨parts, close, hparts, rfl⟩
  · rintro ⟨parts, close, hparts, rfl⟩
    exact ⟨parts, close :: rest, hparts.length_lt, hparts, reads_pure.2 ⟨rfl, rfl⟩⟩

/-- To pass a value on with a weaker bound changes nothing. -/
private theorem reads_pass_iff {x : Reading α m} {h : m ≤ n} :
    Reads (x >>= fun r => pure (⟨r.value, r.rest, Nat.lt_of_lt_of_le r.length_lt h⟩ : Read α n))
      a rest ↔ Reads x a rest := by
  simp only [reads_bind, reads_pure, length_lt_and_reads_iff, exists_prop]
  constructor
  · rintro ⟨a, r, ha, rfl, rfl⟩
    exact ha
  · intro ha
    exact ⟨a, rest, ha, rfl, rfl⟩

/-- Behind a sigil a reference is read. -/
theorem reads_primary_sigil_iff {k : TokenKind} (h : IsSigil k) :
    Reads (primary ⟨k, s⟩ i input) e rest ↔ Reads (afterSigil k input) e rest := by
  rw [primary]
  rcases h with rfl | rfl | rfl
  all_goals exact reads_pass_iff (h := Nat.le_succ _)

/-- Behind the name of a function and a bracket its argument is read. -/
theorem reads_primary_call_iff {f : Builtin} {b : String} {j : Nat}
    (h : Builtin.ofName? s = some f) :
    Reads (primary ⟨.word, s⟩ i ((⟨.openBracket, b⟩, j) :: input)) e rest ↔
      ∃ a r c, Reads (operation .disjunction input) a r ∧ Next .closeBracket r c rest ∧
        e = .call f a := by
  rw [primary]
  simp only [h, if_true, reads_bind, reads_pure, length_lt_and_reads_iff, exists_prop]
  simp only [reads_expect_iff, decide_eq_true_eq, exists_eq_left]
  constructor
  · rintro ⟨a, r, ha, c, r', hclose, rfl, rfl⟩
    exact ⟨a, r, c, ha, hclose, rfl⟩
  · rintro ⟨a, r, c, ha, hclose, rfl⟩
    exact ⟨a, r, ha, c, rest, hclose, rfl, rfl⟩

/-- A word that calls no function stands for itself. -/
theorem reads_primary_literal_iff
    (h : Builtin.ofName? s = none ∨ startsBracket input = false) :
    Reads (primary ⟨.word, s⟩ i input) e rest ↔ e = .literal s ∧ rest = input := by
  have heq : Expr.literal s = e ∧ input = rest ↔ e = .literal s ∧ rest = input :=
    and_congr eq_comm eq_comm
  rw [primary]
  cases hf : Builtin.ofName? s with
  | none => exact reads_ok.trans heq
  | some f =>
    cases input with
    | nil => exact reads_ok.trans heq
    | cons t input =>
      -- A bracket would have made the word a call.
      have hbracket : ¬ t.1.kind = .openBracket := by
        rcases h with h | h
        · rw [hf] at h
          cases h
        · exact of_decide_eq_false h
      dsimp only
      rw [if_neg hbracket]
      exact reads_ok.trans heq

/-- The tokens that an operand begins with. -/
theorem begins_of_reads_primary {t : Token} (h : Reads (primary t i input) e rest) :
    t.kind ∈ [.openBracket, .quote, .dollar, .percent, .at, .word] := by
  rw [primary] at h
  obtain ⟨k, s⟩ := t
  cases k <;> simp at h ⊢

end Primary

end Operations

/-! ## Conditions -/

section Conditions

variable {es : List Expr}

/-- Behind a separator an element is read, and then the others. -/
theorem reads_elements_cons_iff {r : Input} (h : Next .semicolon input s r) :
    Reads (elements input) es rest ↔
      ∃ e r₁ more, Reads (operation .disjunction r) e r₁ ∧ Reads (elements r₁) more rest ∧
        es = e :: more := by
  obtain ⟨i, h⟩ := h
  rw [elements]
  -- The token found is the semicolon of the hypothesis.
  split
  · next hnil => rw [h] at hnil; cases hnil
  · next hcons =>
    rw [h] at hcons
    cases hcons
    simp only [if_true, reads_bind, reads_pure, length_lt_and_reads_iff, exists_prop]
    constructor
    · rintro ⟨e, r₁, he, more, r₂, hmore, rfl, rfl⟩
      exact ⟨e, r₁, more, he, hmore, rfl⟩
    · rintro ⟨e, r₁, more, he, hmore, rfl⟩
      exact ⟨e, r₁, he, more, rest, hmore, rfl, rfl⟩

/-- Where no separator comes next there are no more elements. -/
theorem reads_elements_stop_iff (h : ∀ t ∈ (skipBlank input).head?, t.1.kind ≠ .semicolon) :
    Reads (elements input) es rest ↔ es = [] ∧ rest = skipBlank input := by
  rw [elements]
  split
  · next hnil =>
    rw [reads_ok, hnil]
    exact and_congr eq_comm eq_comm
  · next t i r hcons =>
    simp only [hcons] at h ⊢
    rw [if_neg (h (t, i) rfl), reads_ok]
    exact and_congr eq_comm eq_comm

/-- A condition is read from nothing but blanks, or as a first element and the others up to the end.
-/
theorem ofTokens_eq_ok_iff {tokens : List Token} :
    ofTokens tokens = .ok e ↔
      (skipBlank tokens.zipIdx = [] ∧ e = .quoted "") ∨
        ∃ first r more, Reads (operation .disjunction tokens.zipIdx) first r ∧
          Reads (elements r) more [] ∧ e = ofElements first more := by
  unfold ofTokens
  -- Blanks only are the empty text; otherwise the elements have to read everything.
  by_cases hskip : skipBlank tokens.zipIdx = []
  · simp only [hskip, if_true, Except.ok.injEq, true_and]
    refine ⟨fun h => .inl h.symm, ?_⟩
    rintro (rfl | ⟨first, r, more, hfirst, -⟩)
    · rfl
    · obtain ⟨l, r', hl, -⟩ := reads_operation_iff.1 hfirst
      exact absurd hl (not_reads_unary hskip)
  · simp only [hskip, if_false, false_and, false_or]
    constructor
    · intro h
      cases hfirst : operation .disjunction tokens.zipIdx with
      | error err => simp [hfirst, bind, Except.bind] at h
      | ok first =>
        obtain ⟨first, r, hr⟩ := first
        cases hmore : elements r with
        | error err => simp [hfirst, hmore, bind, Except.bind] at h
        | ok more =>
          obtain ⟨more, r', hr'⟩ := more
          simp only [hfirst, hmore, bind, Except.bind] at h
          cases r' with
          | nil =>
            cases h
            exact ⟨first, r, more, ⟨hr, rfl⟩, ⟨hr', hmore⟩, rfl⟩
          | cons t r' => cases h
    · rintro ⟨first, r, more, ⟨hr, hfirst⟩, ⟨hr', hmore⟩, rfl⟩
      simp only [hfirst, hmore, bind, Except.bind]
      rfl

end Conditions

/-! ## Values -/

/-- A value is one template, or one template in front of the others. -/
theorem templates_eq_ok_iff {segments : List (List Expr)} :
    templates input = .ok segments ↔
      ∃ parts rest, Reads (template .semicolon input) parts rest ∧
        ((rest = [] ∧ segments = [parts]) ∨
          ∃ t r more, rest = t :: r ∧ templates r = .ok more ∧ segments = parts :: more) := by
  -- The first template ends where a semicolon stands or at the end of the text.
  rw [templates]
  constructor
  · intro h
    cases hparts : template .semicolon input with
    | error err => simp [hparts, bind, Except.bind] at h
    | ok read =>
      obtain ⟨parts, rest, hlength⟩ := read
      refine ⟨parts, rest, ⟨hlength, rfl⟩, ?_⟩
      simp only [hparts, bind, Except.bind] at h
      cases rest with
      | nil => exact .inl ⟨rfl, (Except.ok.inj h).symm⟩
      | cons t r =>
        dsimp only at h
        split at h
        · cases h
        · next more hmore => exact .inr ⟨t, r, more, rfl, hmore, (Except.ok.inj h).symm⟩
  · rintro ⟨parts, rest, ⟨hlength, hparts⟩, ⟨rfl, rfl⟩ | ⟨t, r, more, rfl, hmore, rfl⟩⟩
    · simp only [hparts, bind, Except.bind]
      rfl
    · simp only [hparts, hmore, bind, Except.bind]
      rfl

end BuildEngine.Expr
