import BuildEngine.Expr.Basic
import BuildEngine.Expr.Token

/-!
# Reading expressions

Binary operations are read by precedence climbing: what is read is told how tightly its operators
have to bind, and leaves the others to what surrounds it. `OR` binds loosest, then come `AND`,
equality, the relational operators, `!`, and operands that touch. Values are templates: text with
references in it, cut at every `;`.

Every token carries its index, which is what error messages report. A reader returns what is
left of the input together with a proof that something was consumed, so reading always ends.
-/

namespace BuildEngine

/-- What a reader was looking for when it met something else. -/
inductive Expectation where
  | operand
  | closingBracket
  | bracketAfterFunction
  | closingBracketOfCall
  | bracketAfterSigil
  | name
  | closingBracketOfReference
  | closingBracketOfItems
  | quoteAfterArrow
  | closingBracketOfProjection
deriving DecidableEq, Repr

/-- The words for an expectation in a message. -/
def Expectation.text : Expectation → String
  | operand => "an operand"
  | closingBracket => "')'"
  | bracketAfterFunction => "'(' after function name"
  | closingBracketOfCall => "')' closing the function call"
  | bracketAfterSigil => "'(' after '$', '@' or '%'"
  | name => "a name"
  | closingBracketOfReference => "')' closing the reference"
  | closingBracketOfItems => "')' closing the item reference"
  | quoteAfterArrow => "a quoted projection after '->'"
  | closingBracketOfProjection => "')' closing the item projection"

/-- Why a text is no expression. -/
inductive ParseError where
  /-- The quote at this index is never closed. -/
  | unterminatedQuote (position : Nat)
  /-- Another token stands where the expected one should. -/
  | expected (what : Expectation) (found : String) (position : Nat)
  /-- The text ends where something is still expected. -/
  | unexpectedEnd (what : Expectation)
  /-- A token that begins nothing, or that is left over. -/
  | unexpectedToken (token : String) (position : Nat)
deriving DecidableEq, Repr

/-- The message of a parse error. -/
def ParseError.message : ParseError → String
  | unterminatedQuote position =>
    "Unterminated quoted string starting at token " ++ toString position ++ "."
  | expected what found position =>
    "Expected " ++ what.text ++ " at token " ++ toString position ++ ", found '" ++ found ++ "'."
  | unexpectedEnd what => "Unexpected end of expression: expected " ++ what.text ++ "."
  | unexpectedToken token position =>
    "Unexpected token '" ++ token ++ "' at position " ++ toString position ++ "."

namespace Expr

/-- Tokens with their indices. -/
abbrev Input := List (Token × Nat)

/-- What a reader found, and what it left of an input: less than `bound` tokens. -/
structure Read (α : Type) (bound : Nat) where
  /-- What was found. -/
  value : α
  /-- The tokens that follow. -/
  rest : Input
  /-- Something was consumed. -/
  length_lt : rest.length < bound

/-- The result of reading from an input of which less than `bound` tokens are left. -/
abbrev Reading (α : Type) (bound : Nat) := Except ParseError (Read α bound)

/-- The input without the blank tokens in front. -/
def skipBlank (input : Input) : Input :=
  input.dropWhile fun t => t.1.kind = .blank

/-- Skipping blank tokens adds none. -/
theorem length_skipBlank_le (input : Input) : (skipBlank input).length ≤ input.length :=
  (List.dropWhile_suffix (l := input) _).length_le

/-- The index of the token in front, blank or not. -/
def position : Input → Nat
  | [] => 0
  | t :: _ => t.2

/-- Reads the next token that is not blank if its kind is accepted. An error reports the
place where looking began. -/
def expect (accepted : TokenKind → Bool) (what : Expectation) (input : Input) :
    Reading String input.length :=
  match h : skipBlank input with
  | [] => .error (.unexpectedEnd what)
  | (token, _) :: rest =>
    if accepted token.kind then
      .ok ⟨token.text, rest, by
        have := length_skipBlank_le input
        rw [h, List.length_cons] at this; omega⟩
    -- The blank tokens in front count: the place is where looking began.
    else .error (.expected what token.text (position input))

/-- The tokens that can be a name; the words of operators are names too. -/
def isNameKind (k : TokenKind) : Bool :=
  k = .word || k = .and || k = .or

/-- Reads the bracket that must touch a sigil. -/
def openReference : (input : Input) → Reading Unit input.length
  | [] => .error (.unexpectedEnd .bracketAfterSigil)
  | (token, i) :: rest =>
    if token.kind = .openBracket then .ok ⟨(), rest, by simp⟩
    else .error (.expected .bracketAfterSigil token.text i)

/-- Reads what follows the sigil of a property or metadata reference. -/
def reference (make : String → Expr) (input : Input) : Reading Expr input.length := do
  let ⟨_, r₁, _⟩ ← openReference input
  let ⟨name, r₂, _⟩ ← expect isNameKind .name r₁
  let ⟨_, r₃, _⟩ ← expect (· = .closeBracket) .closingBracketOfReference r₂
  return ⟨make name, r₃, by omega⟩

/-- Puts template text in front of template parts. -/
def consTemplateText (s : String) : List Expr → List Expr
  | .quoted t :: parts => .quoted (s ++ t) :: parts
  | parts => if s.isEmpty then parts else .quoted s :: parts

/-- Whether the next token is a bracket that touches what stands before it. -/
def startsBracket : Input → Bool
  | (token, _) :: _ => token.kind = .openBracket
  | [] => false

mutual

/-- Reads template parts up to a token of kind `stop`, which is left standing, or to the end.
A sigil without a bracket is text, and so is every other token. -/
def template (stop : TokenKind) : (input : Input) → Reading (List Expr) (input.length + 1)
  | [] => .ok ⟨[], [], by simp⟩
  | (token, i) :: rest =>
    if token.kind = stop then .ok ⟨[], (token, i) :: rest, by simp⟩
    else if token.kind = .dollar && startsBracket rest then do
      let ⟨part, r₁, _⟩ ← reference .property rest
      let ⟨parts, r₂, _⟩ ← template stop r₁
      return ⟨part :: parts, r₂, by simp only [List.length_cons]; omega⟩
    else if token.kind = .percent && startsBracket rest then do
      let ⟨part, r₁, _⟩ ← reference .metadata rest
      let ⟨parts, r₂, _⟩ ← template stop r₁
      return ⟨part :: parts, r₂, by simp only [List.length_cons]; omega⟩
    else if token.kind = .at && startsBracket rest then do
      let ⟨part, r₁, _⟩ ← itemReference rest
      let ⟨parts, r₂, _⟩ ← template stop r₁
      return ⟨part :: parts, r₂, by simp only [List.length_cons]; omega⟩
    else do
      -- What begins no reference is text, whatever it means elsewhere.
      let ⟨parts, r₁, _⟩ ← template stop rest
      return ⟨consTemplateText token.text parts, r₁, by simp only [List.length_cons]; omega⟩
termination_by input => 2 * input.length + 1

/-- Reads what follows the sigil of an item reference or item projection. -/
def itemReference (input : Input) : Reading Expr input.length := do
  let ⟨_, r₁, _⟩ ← openReference input
  let ⟨name, r₂, _⟩ ← expect isNameKind .name r₁
  match h : skipBlank r₂ with
  | (token, _) :: r₃ =>
    have : r₃.length < r₂.length := by
      have := length_skipBlank_le r₂
      rw [h, List.length_cons] at this; omega
    if token.kind = .arrow then
      let ⟨_, r₄, _⟩ ← expect (· = .quote) .quoteAfterArrow r₃
      let ⟨parts, r₅, h₅⟩ ← template .quote r₄
      match r₅, h₅ with
      -- The quote is the token behind the blanks, but the place is told from where they begin.
      | [], _ => .error (.unterminatedQuote (position r₃))
      | _ :: r₆, h₆ =>
        let ⟨_, r₇, _⟩ ← expect (· = .closeBracket) .closingBracketOfProjection r₆
        return ⟨.projection name parts, r₇, by rw [List.length_cons] at h₆; omega⟩
    else
      let ⟨_, r₄, _⟩ ← expect (· = .closeBracket) .closingBracketOfItems (skipBlank r₂)
      return ⟨.items name, r₄, by have := length_skipBlank_le r₂; omega⟩
  | [] => .error (.unexpectedEnd .closingBracketOfItems)
termination_by 2 * input.length

end

/-- The operator of a token. -/
def operator? : TokenKind → Option BinaryOp
  | .equals => some .equals
  | .notEquals => some .notEquals
  | .less => some .less
  | .lessOrEqual => some .lessOrEqual
  | .greater => some .greater
  | .greaterOrEqual => some .greaterOrEqual
  | .and => some .and
  | .or => some .or
  | _ => none

/-- The operator at the head of an input, if it binds at least as tightly as `p`, and what
follows it. -/
def operatorAt? (p : Precedence) : Input → Option (BinaryOp × Input)
  | [] => none
  | (token, _) :: rest =>
    match operator? token.kind with
    | some op => if op.precedence.height ≤ p.height then some (op, rest) else none
    | none => none

/-- An operator takes one token. -/
theorem length_operatorAt? {p : Precedence} {input rest : Input} {op : BinaryOp}
    (h : operatorAt? p input = some (op, rest)) : rest.length + 1 = input.length := by
  cases input with
  | nil => simp [operatorAt?] at h
  | cons t r =>
    simp only [operatorAt?] at h
    split at h
    · split at h
      · simp_all
      · contradiction
    · contradiction

/-- The tokens that can continue an operand which they touch. -/
def continuesOperand (k : TokenKind) : Bool :=
  k = .word || k = .dollar || k = .at || k = .percent

/-- What follows a call is shorter than what the bracket of the call begins. -/
theorem length_lt_of_call {bracket : Token} {i : Nat} {input r₁ r₂ : Input}
    (h₁ : r₁.length < input.length) (h₂ : r₂.length < r₁.length) :
    r₂.length < ((bracket, i) :: input).length + 1 := by
  rw [List.length_cons]
  omega

/-- A reader that may leave all of its input is given one more than the length. -/
theorem length_lt_succ (input : Input) : input.length < input.length + 1 :=
  Nat.lt_succ_self _

/-- What is behind a token leaves room for one more. -/
theorem length_cons_lt (token : Token) (i : Nat) (rest : Input) :
    ((token, i) :: rest : Input).length < ((token, i) :: rest : Input).length + 1 :=
  length_lt_succ _

/-- One part stands for itself, several are a concatenation. -/
def ofAdjacent (first : Expr) : List Expr → Expr
  | [] => first
  | more => .concat (first :: more)

mutual

/-- Reads an operation whose operators bind at least as tightly as `p`. -/
def operation (p : Precedence) (input : Input) : Reading Expr input.length := do
  let ⟨lhs, r₁, _⟩ ← unary input
  let ⟨e, r₂, _⟩ ← operations p lhs r₁
  return ⟨e, r₂, by omega⟩
termination_by (input.length, 3)

/-- Reads the right operand of an operator of precedence `p`: operators in it bind tighter. -/
def rightOperand (p : Precedence) (input : Input) : Reading Expr input.length :=
  match p.tighter with
  | some q => operation q input
  | none => unary input
termination_by (input.length, 4)

/-- Reads the operators that bind at least as tightly as `p` and follow `lhs`, with their right
operands. -/
def operations (p : Precedence) (lhs : Expr) (input : Input) :
    Reading Expr (input.length + 1) :=
  have hskip := length_skipBlank_le input
  match h : operatorAt? p (skipBlank input) with
  | none => .ok ⟨lhs, skipBlank input, by omega⟩
  | some (op, rest) => do
    have hrest := length_operatorAt? h
    let ⟨rhs, r₁, _⟩ ← rightOperand op.precedence rest
    let ⟨e, r₂, _⟩ ← operations p (.binary op lhs rhs) r₁
    return ⟨e, r₂, by omega⟩
termination_by (input.length, 0)

/-- Reads negations and what they are applied to. -/
def unary (input : Input) : Reading Expr input.length :=
  have hskip := length_skipBlank_le input
  match h : skipBlank input with
  | [] => .error (.unexpectedEnd .operand)
  | (token, i) :: rest => do
    have hrest : rest.length < input.length := by rw [h, List.length_cons] at hskip; omega
    if token.kind = .not then
      let ⟨e, r₁, _⟩ ← unary rest
      return ⟨.not e, r₁, by omega⟩
    else
      let ⟨first, r₁, _⟩ ← primary token i rest
      let ⟨more, r₂, _⟩ ← adjacent r₁
      return ⟨ofAdjacent first more, r₂, by omega⟩
termination_by (input.length, 2)
decreasing_by all_goals omega

/-- Reads the operands that touch the one before. -/
def adjacent : (input : Input) → Reading (List Expr) (input.length + 1)
  | [] => .ok ⟨[], [], by simp⟩
  | (token, i) :: rest =>
    if continuesOperand token.kind then do
      let ⟨part, r₁, _⟩ ← primary token i rest
      let ⟨more, r₂, _⟩ ← adjacent r₁
      return ⟨part :: more, r₂, by simp only [List.length_cons]; omega⟩
    else .ok ⟨[], (token, i) :: rest, by simp⟩
termination_by input => (input.length, 1)

/-- Reads one operand that begins with `token` at index `i` and goes on in `input`. -/
def primary (token : Token) (i : Nat) (input : Input) : Reading Expr (input.length + 1) :=
  match token.kind with
  | .openBracket => do
    let ⟨e, r₁, _⟩ ← operation .disjunction input
    let ⟨_, r₂, _⟩ ← expect (· = .closeBracket) .closingBracket r₁
    return ⟨e, r₂, by omega⟩
  | .quote => do
    let ⟨parts, r₁, h₁⟩ ← template .quote input
    match r₁, h₁ with
    | [], _ => .error (.unterminatedQuote i)
    | _ :: r₂, h₂ => return ⟨.concat parts, r₂, by rw [List.length_cons] at h₂; omega⟩
  | .dollar => do
    let ⟨e, r₁, _⟩ ← reference .property input
    return ⟨e, r₁, by omega⟩
  | .percent => do
    let ⟨e, r₁, _⟩ ← reference .metadata input
    return ⟨e, r₁, by omega⟩
  | .at => do
    let ⟨e, r₁, _⟩ ← itemReference input
    return ⟨e, r₁, by omega⟩
  | .word =>
    match Builtin.ofName? token.text, input with
    -- The name of a function calls it only if a bracket touches it.
    | some f, (bracket, j) :: rest =>
      if bracket.kind = .openBracket then do
        let ⟨e, r₁, h₁⟩ ← operation .disjunction rest
        let ⟨_, r₂, h₂⟩ ← expect (· = .closeBracket) .closingBracketOfCall r₁
        return ⟨.call f e, r₂, length_lt_of_call h₁ h₂⟩
      else .ok ⟨.literal token.text, (bracket, j) :: rest, length_cons_lt bracket j rest⟩
    | _, rest => .ok ⟨.literal token.text, rest, length_lt_succ rest⟩
  | _ => .error (.unexpectedToken token.text i)
termination_by (input.length + 1, 0)

end

/-- Reads elements after the first, each behind a `;`. -/
def elements (input : Input) : Reading (List Expr) (input.length + 1) :=
  have hskip := length_skipBlank_le input
  match h : skipBlank input with
  | [] => .ok ⟨[], [], by simp⟩
  | (token, i) :: rest =>
    have hrest : rest.length < input.length := by rw [h, List.length_cons] at hskip; omega
    if token.kind = .semicolon then do
      let ⟨e, r₁, _⟩ ← operation .disjunction rest
      let ⟨more, r₂, _⟩ ← elements r₁
      return ⟨e :: more, r₂, by omega⟩
    else .ok ⟨[], (token, i) :: rest, by rw [← h]; omega⟩
termination_by input.length

/-- One element stands for itself, several are a list. -/
def ofElements (first : Expr) : List Expr → Expr
  | [] => first
  | more => .list (first :: more)

/-- The condition that tokens spell. Blank tokens alone spell the empty text. -/
def ofTokens (tokens : List Token) : Except ParseError Expr :=
  let input := tokens.zipIdx
  if skipBlank input = [] then .ok (.quoted "")
  else do
    let ⟨first, r₁, _⟩ ← operation .disjunction input
    let ⟨more, r₂, _⟩ ← elements r₁
    match r₂ with
    | [] => return ofElements first more
    | (token, i) :: _ => .error (.unexpectedToken token.text i)

/-- The condition that a text spells. -/
def ofText (s : String) : Except ParseError Expr :=
  ofTokens (Token.ofText s)

/-- Reads the templates of a value: one, and one more behind every `;`. -/
def templates (input : Input) : Except ParseError (List (List Expr)) := do
  let ⟨parts, r₁, h⟩ ← template .semicolon input
  match r₁, h with
  | [], _ => return [parts]
  | _ :: r₂, _ => return parts :: (← templates r₂)
termination_by input.length
decreasing_by simp_all only [List.length_cons]; omega

/-- The value that a text spells: a template, or a list of templates if there is a `;`
outside of references. -/
def ofValueText (s : String) : Except ParseError Expr := do
  match ← templates (Token.ofText s).zipIdx with
  | [parts] => return .concat parts
  | segments => return .list (segments.map .concat)

end Expr

end BuildEngine
