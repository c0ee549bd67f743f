import BuildEngine.Text.Number

/-!
# Arithmetic of scripts

A sum in a script is made of whole numbers, variables, brackets and the operators of integers.
Comparisons and logical operators give 1 or 0. Operators of the same strength work from the left.
-/

namespace BuildEngine.Arithmetic

/-- A token of a sum. -/
inductive Token where
  | number (value : Int)
  | operator (text : List Char)
deriving DecidableEq, Repr

/-- The operators with two characters. -/
def pairs : List (List Char) :=
  [['=', '='], ['!', '='], ['<', '='], ['>', '='], ['&', '&'], ['|', '|']]

/-- The tokens of a sum; `value` is the value of a variable. Marks of parameters mean nothing. -/
def tokens (value : List Char → Int) : (fuel : Nat) → List Char → List Token
  | 0, _ | _, [] => []
  | fuel + 1, c :: rest =>
    if c.isDigit then
      let (digits, rest) := Text.spanDigits (c :: rest)
      .number (Text.ofDigits 10 digits) :: tokens value fuel rest
    else if c.isAlpha ∨ c = '_' then
      let name := (c :: rest).takeWhile fun c => c.isAlphanum || c = '_'
      .number (value name) :: tokens value fuel ((c :: rest).drop name.length)
    else if " \t\n$\x7B\x7D".toList.contains c then tokens value fuel rest
    else if pairs.contains (c :: rest.take 1) then
      .operator (c :: rest.take 1) :: tokens value fuel (rest.drop 1)
    else .operator [c] :: tokens value fuel rest

/-- How strongly an operator binds. -/
def strength? (operator : List Char) : Option Nat :=
  let levels := [["||"], ["&&"], ["==", "!="], ["<=", ">=", "<", ">"], ["+", "-"], ["*", "/", "%"]]
  levels.findIdx? fun level => level.contains (String.ofList operator)

/-- The number of a truth. -/
def truth (b : Bool) : Int :=
  if b then 1 else 0

/-- The value of an operator; a division by zero has none. -/
def apply (operator : List Char) (a b : Int) : Option Int :=
  match operator with
  | ['+'] => some (a + b)
  | ['-'] => some (a - b)
  | ['*'] => some (a * b)
  | ['/'] => if b = 0 then none else some (a.tdiv b)
  | ['%'] => if b = 0 then none else some (a.tmod b)
  | ['<'] => some (truth (a < b))
  | ['>'] => some (truth (a > b))
  | ['<', '='] => some (truth (a ≤ b))
  | ['>', '='] => some (truth (a ≥ b))
  | ['=', '='] => some (truth (a = b))
  | ['!', '='] => some (truth (a ≠ b))
  | ['&', '&'] => some (truth (a ≠ 0 && b ≠ 0))
  | _ => some (truth (a ≠ 0 || b ≠ 0))

mutual

/-- The value of the operand in front, and the tokens behind it. -/
def operand : (fuel : Nat) → List Token → Option (Int × List Token)
  | _ + 1, .number n :: rest => some (n, rest)
  | fuel + 1, .operator ['-'] :: rest => do
    let (a, rest) ← operand fuel rest
    return (-a, rest)
  | fuel + 1, .operator ['+'] :: rest => operand fuel rest
  | fuel + 1, .operator ['!'] :: rest => do
    let (a, rest) ← operand fuel rest
    return (truth (a = 0), rest)
  | fuel + 1, .operator ['('] :: rest => do
    let (a, rest) ← operand fuel rest
    let (a, rest) ← operators fuel 0 a rest
    match rest with
    | .operator [')'] :: rest => return (a, rest)
    | _ => none
  | _, _ => none

/-- Goes on behind an operand as long as operators are of at least some strength. -/
def operators : (fuel : Nat) → (least : Nat) → Int → List Token → Option (Int × List Token)
  | fuel + 1, least, a, .operator text :: rest =>
    match strength? text with
    | none => some (a, .operator text :: rest)
    | some strength =>
      if strength < least then some (a, .operator text :: rest)
      else do
        let (b, rest) ← operand fuel rest
        let (b, rest) ← operators fuel (strength + 1) b rest
        operators fuel least (← apply text a b) rest
  | _, _, a, rest => some (a, rest)

end

/-- The value of a sum, if it is one. -/
def eval (value : List Char → Int) (text : List Char) : Option Int := do
  let tokens := tokens value text.length text
  if tokens = [] then return 0
  let (a, rest) ← operand (text.length + 1) tokens
  let (a, rest) ← operators (text.length + 1) 0 a rest
  if rest = [] then return a else none

end BuildEngine.Arithmetic
