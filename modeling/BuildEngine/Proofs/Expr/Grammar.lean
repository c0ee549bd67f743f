import BuildEngine.Expr.Basic
import BuildEngine.Expr.Token
import Mathlib.Data.List.Chain

/-!
# Grammar of conditions

Which lists of tokens spell which conditions, said without a reader. Every relation below is one
rule of the grammar, loosest first:

```
condition := operation(OR) (';' operation(OR))*
operation(p) := operand(p) (infix(p) operand(p))*        infixes of one level group to the left
operand(p) := operation(the next tighter level), or unary behind the tightest level
unary := '!' unary | primary adjacent*
adjacent := a primary that begins with a word or a sigil and touches what stands before it
primary := '(' operation(OR) ')' | quoted template | reference | name '(' operation(OR) ')' | word
```

Blank tokens may stand in front of every token that a rule names, except where the rule lets one
token touch the other: behind a sigil, behind the name of a function, in front of an adjacent
primary, and in the text of a template, to which they belong.
-/

namespace BuildEngine.Grammar

/-- All tokens are blank. -/
def Blanks (ts : List Token) : Prop :=
  ∀ t ∈ ts, t.kind = .blank

/-- A token of some kind, with blank tokens in front of it. -/
inductive Spaced (k : TokenKind) : List Token → String → Prop
  | mk {b : List Token} {s : String} : Blanks b → Spaced k (b ++ [⟨k, s⟩]) s

/-- A name; the words of operators are names as well. -/
inductive Name : List Token → String → Prop
  | mk {k : TokenKind} {ts : List Token} {s : String} :
    k ∈ [.word, .and, .or] → Spaced k ts s → Name ts s

/-- The tokens that begin a reference when a bracket touches them. -/
def IsSigil (k : TokenKind) : Prop :=
  k = .dollar ∨ k = .percent ∨ k = .at

/-- The tokens that begin an adjacent primary. -/
def BeginsAdjacent (k : TokenKind) : Prop :=
  k = .word ∨ IsSigil k

/-- The text of a template up to a reference or to its end: whatever begins no reference. -/
def Plain (stop : TokenKind) (ts : List Token) : Prop :=
  (∀ t ∈ ts, t.kind ≠ stop) ∧
    ts.IsChain fun t u => IsSigil t.kind → u.kind ≠ .openBracket

/-- The part of a template that its text makes; no text makes none. -/
def textPart (ts : List Token) : List Expr :=
  let text := String.join (ts.map Token.text)
  if text = "" then [] else [.quoted text]

mutual

/-- A reference, from its sigil to its closing bracket. -/
inductive Reference : List Token → Expr → Prop
  | property {s s' n c : String} {ns cs : List Token} :
    Name ns n → Spaced .closeBracket cs c →
      Reference (⟨.dollar, s⟩ :: ⟨.openBracket, s'⟩ :: (ns ++ cs)) (.property n)
  | metadata {s s' n c : String} {ns cs : List Token} :
    Name ns n → Spaced .closeBracket cs c →
      Reference (⟨.percent, s⟩ :: ⟨.openBracket, s'⟩ :: (ns ++ cs)) (.metadata n)
  | items {s s' n c : String} {ns cs : List Token} :
    Name ns n → Spaced .closeBracket cs c →
      Reference (⟨.at, s⟩ :: ⟨.openBracket, s'⟩ :: (ns ++ cs)) (.items n)
  | projection {s s' n a q q' c : String} {ns as qs ts cs : List Token} {parts : List Expr} :
    Name ns n → Spaced .arrow as a → Spaced .quote qs q → Template .quote ts parts →
      Spaced .closeBracket cs c →
        Reference (⟨.at, s⟩ :: ⟨.openBracket, s'⟩ :: (ns ++ as ++ qs ++ ts ++ ⟨.quote, q'⟩ :: cs))
          (.projection n parts)

/-- The parts of a template that ends in front of a token of kind `stop`. -/
inductive Template : TokenKind → List Token → List Expr → Prop
  | text {stop : TokenKind} {ts : List Token} :
    Plain stop ts → Template stop ts (textPart ts)
  | reference {stop : TokenKind} {ts rs us : List Token} {e : Expr} {parts : List Expr} :
    Plain stop ts → Reference rs e → Template stop us parts →
      Template stop (ts ++ rs ++ us) (textPart ts ++ e :: parts)

end

/-- The infixes of every level. -/
inductive Infix : Precedence → TokenKind → BinaryOp → Prop
  | or : Infix .disjunction .or .or
  | and : Infix .conjunction .and .and
  | equals : Infix .equality .equals .equals
  | notEquals : Infix .equality .notEquals .notEquals
  | less : Infix .relational .less .less
  | lessOrEqual : Infix .relational .lessOrEqual .lessOrEqual
  | greater : Infix .relational .greater .greater
  | greaterOrEqual : Infix .relational .greaterOrEqual .greaterOrEqual

mutual

/-- An operand that no prefix stands before. -/
inductive Primary : List Token → Expr → Prop
  | bracketed {s c : String} {ts cs : List Token} {e : Expr} :
    Operation .disjunction ts e → Spaced .closeBracket cs c →
      Primary (⟨.openBracket, s⟩ :: (ts ++ cs)) e
  | quoted {q q' : String} {ts : List Token} {parts : List Expr} :
    Template .quote ts parts → Primary (⟨.quote, q⟩ :: (ts ++ [⟨.quote, q'⟩])) (.concat parts)
  | reference {ts : List Token} {e : Expr} : Reference ts e → Primary ts e
  | call {n s c : String} {f : Builtin} {ts cs : List Token} {e : Expr} :
    Builtin.ofName? n = some f → Operation .disjunction ts e → Spaced .closeBracket cs c →
      Primary (⟨.word, n⟩ :: ⟨.openBracket, s⟩ :: (ts ++ cs)) (.call f e)
  | literal {s : String} : Primary [⟨.word, s⟩] (.literal s)

/-- Primaries that touch what stands before them. -/
inductive Adjacent : List Token → List Expr → Prop
  | nil : Adjacent [] []
  | cons {t : Token} {ts us : List Token} {e : Expr} {es : List Expr} :
    BeginsAdjacent t.kind → Primary (t :: ts) e → Adjacent us es →
      Adjacent (t :: ts ++ us) (e :: es)

/-- An operand of the tightest operators. -/
inductive Unary : List Token → Expr → Prop
  | not {s : String} {ns ts : List Token} {e : Expr} :
    Spaced .not ns s → Unary ts e → Unary (ns ++ ts) (.not e)
  | single {b ts : List Token} {e : Expr} : Blanks b → Primary ts e → Unary (b ++ ts) e
  | joined {b ts us : List Token} {e f : Expr} {es : List Expr} :
    Blanks b → Primary ts e → Adjacent us (f :: es) →
      Unary (b ++ ts ++ us) (.concat (e :: f :: es))

/-- An operand of the operators of a level. -/
inductive Operand : Precedence → List Token → Expr → Prop
  | tighter {p q : Precedence} {ts : List Token} {e : Expr} :
    p.tighter = some q → Operation q ts e → Operand p ts e
  | unary {p : Precedence} {ts : List Token} {e : Expr} :
    p.tighter = none → Unary ts e → Operand p ts e

/-- Operands with the operators of a level between them. -/
inductive Operation : Precedence → List Token → Expr → Prop
  | operand {p : Precedence} {ts : List Token} {e : Expr} : Operand p ts e → Operation p ts e
  | binary {p : Precedence} {k : TokenKind} {op : BinaryOp} {s : String} {ts os us : List Token}
      {l r : Expr} :
    Operation p ts l → Infix p k op → Spaced k os s → Operand p us r →
      Operation p (ts ++ os ++ us) (.binary op l r)

end

/-- Elements of a list, each behind a `;`. -/
inductive Elements : List Token → List Expr → Prop
  | nil : Elements [] []
  | cons {s : String} {ss ts us : List Token} {e : Expr} {es : List Expr} :
    Spaced .semicolon ss s → Operation .disjunction ts e → Elements us es →
      Elements (ss ++ ts ++ us) (e :: es)

/-- A whole condition. -/
inductive Condition : List Token → Expr → Prop
  | blank {b : List Token} : Blanks b → Condition b (.quoted "")
  | single {ts b : List Token} {e : Expr} :
    Operation .disjunction ts e → Blanks b → Condition (ts ++ b) e
  | list {ts us b : List Token} {e f : Expr} {es : List Expr} :
    Operation .disjunction ts e → Elements us (f :: es) → Blanks b →
      Condition (ts ++ us ++ b) (.list (e :: f :: es))

end BuildEngine.Grammar
