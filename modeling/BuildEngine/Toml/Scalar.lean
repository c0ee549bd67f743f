import BuildEngine.Text.Number
import BuildEngine.Toml.Value

/-!
# TOML scalars

The spelling of strings, numbers, truth values and times. A reader takes the characters in front
of a document and returns what is left of it; it fails on anything that TOML 1.0 does not allow.
-/

namespace BuildEngine.Toml

/-- A reader: a value and the characters behind it, or nothing if they are malformed. -/
abbrev Reader (α : Type) := List Char → Option (α × List Char)

/-- Space and tab. -/
def isGap (c : Char) : Bool :=
  c = ' ' || c = '\t'

/-- The characters that may stand for themselves in strings: no control characters but tab. -/
def isPlain (c : Char) : Bool :=
  c = '\t' || (0x20 ≤ c.toNat && c.toNat ≠ 0x7F)

/-- The characters of a comment. -/
def isCommentChar (c : Char) : Bool :=
  c = '\t' || 0x20 ≤ c.toNat

/-- Reads hexadecimal digits of a given number to a code point. -/
def codePoint? (count : Nat) (cs : List Char) : Option (Char × List Char) := do
  let digits := cs.take count
  if digits.length < count then none
  let n := Text.ofDigits 16 (← digits.mapM Text.hexDigit?)
  -- Surrogates are no characters of their own.
  if n < 0xD800 ∨ (0xDFFF < n ∧ n ≤ 0x10FFFF) then return (Char.ofNat n, cs.drop count) else none

/-- The character of an escape sequence of one letter. -/
def simpleEscape? : Char → Option Char
  | 'b' => some '\x08'
  | 't' => some '\t'
  | 'n' => some '\n'
  | 'f' => some '\x0C'
  | 'r' => some '\r'
  | '"' => some '"'
  | '\\' => some '\\'
  | _ => none

/-- Reads what follows a backslash. -/
def escape? : Reader Char
  | 'u' :: rest => codePoint? 4 rest
  | 'U' :: rest => codePoint? 8 rest
  | c :: rest => do return (← simpleEscape? c, rest)
  | [] => none

/-- Reads a string in double quotes, behind the opening one. -/
def basicString : (fuel : Nat) → Reader (List Char)
  | 0, _ => none
  | _, [] => none
  | fuel + 1, c :: rest =>
    if c = '"' then some ([], rest)
    else if c = '\\' then do
      let (e, rest) ← escape? rest
      let (s, rest) ← basicString fuel rest
      return (e :: s, rest)
    else if isPlain c then do
      let (s, rest) ← basicString fuel rest
      return (c :: s, rest)
    else none

/-- Reads a string in single quotes, behind the opening one. -/
def literalString : Reader (List Char)
  | [] => none
  | c :: rest =>
    if c = '\'' then some ([], rest)
    else if isPlain c then do
      let (s, rest) ← literalString rest
      return (c :: s, rest)
    else none

/-- The characters without a line break in front. -/
def dropLineBreak : List Char → List Char
  | '\n' :: rest => rest
  | '\r' :: '\n' :: rest => rest
  | cs => cs

/-- The characters without gaps and line breaks in front. -/
def dropBlankLines : List Char → List Char
  | '\n' :: rest => dropBlankLines rest
  | '\r' :: '\n' :: rest => dropBlankLines rest
  | c :: rest => if isGap c then dropBlankLines rest else c :: rest
  | [] => []

/-- What follows a backslash at the end of a line: everything up to the next character that is
neither a gap nor a line break. -/
def lineContinuation? (cs : List Char) : Option (List Char) :=
  match cs.dropWhile isGap with
  | '\n' :: rest => some (dropBlankLines rest)
  | '\r' :: '\n' :: rest => some (dropBlankLines rest)
  | _ => none

/-- Reads the closing quotes of a string of several lines: three, behind at most two that belong
to the string. -/
def closingQuotes? (quote : Char) (cs : List Char) : Option (List Char × List Char) :=
  let run := cs.takeWhile (· = quote)
  if run.length < 3 then none
  else
    -- Quotes behind the closing three are left over and malformed.
    let inner := min (run.length - 3) 2
    some (List.replicate inner quote, cs.drop (inner + 3))

/-- Reads a string of several lines, behind the opening quotes. -/
def longString (quote : Char) : (fuel : Nat) → Reader (List Char)
  | 0, _ => none
  | _, [] => none
  | fuel + 1, c :: rest =>
    match closingQuotes? quote (c :: rest) with
    | some closed => some closed
    | none =>
      if c = '\\' ∧ quote = '"' then
        match lineContinuation? rest with
        | some rest => longString quote fuel rest
        | none => do
          let (e, rest) ← escape? rest
          let (s, rest) ← longString quote fuel rest
          return (e :: s, rest)
      else if c = '\r' then
        match rest with
        | '\n' :: rest => do
          let (s, rest) ← longString quote fuel rest
          return ('\n' :: s, rest)
        | _ => none
      else if c = '\n' ∨ isPlain c then do
        let (s, rest) ← longString quote fuel rest
        return (c :: s, rest)
      else none

/-- Reads a string of any kind. -/
def string? (cs : List Char) : Option (List Char × List Char) :=
  match cs with
  | '"' :: '"' :: '"' :: rest => longString '"' cs.length (dropLineBreak rest)
  | '\'' :: '\'' :: '\'' :: rest => longString '\'' cs.length (dropLineBreak rest)
  | '"' :: rest => basicString cs.length rest
  | '\'' :: rest => literalString rest
  | _ => none

/-- The digits of a run in which single underscores may stand between digits. -/
def digitRun? (digit? : Char → Option Nat) : List Char → Option (List Nat)
  | [] => none
  | [c] => do return [← digit? c]
  | c :: '_' :: rest => do
    let d ← digit? c
    return d :: (← digitRun? digit? rest)
  | c :: rest => do
    let d ← digit? c
    return d :: (← digitRun? digit? rest)

/-- A digit below a base. -/
def digitBelow? (base : Nat) (c : Char) : Option Nat := do
  let d ← Text.hexDigit? c
  if d < base then return d else none

/-- A decimal whole number without a zero in front. -/
def wholeNumber? (cs : List Char) : Option Nat := do
  let digits ← digitRun? Text.decimalDigit? cs
  if cs.head? = some '0' ∧ digits.length > 1 then none
  else return Text.ofDigits 10 digits

/-- The integer that a run spells. -/
def integer? : List Char → Option Int
  | '0' :: 'x' :: rest => do return Text.ofDigits 16 (← digitRun? (digitBelow? 16) rest)
  | '0' :: 'o' :: rest => do return Text.ofDigits 8 (← digitRun? (digitBelow? 8) rest)
  | '0' :: 'b' :: rest => do return Text.ofDigits 2 (← digitRun? (digitBelow? 2) rest)
  | '-' :: rest => do return -(Int.ofNat (← wholeNumber? rest))
  | '+' :: rest => do return Int.ofNat (← wholeNumber? rest)
  | cs => do return Int.ofNat (← wholeNumber? cs)

/-- Whether an integer fits into 64 bits, with a sign or without. -/
def fits (n : Int) : Bool :=
  Int64.minValue.toInt ≤ n && n < UInt64.size

/-- Whether characters are the exponent of a number. -/
def isExponent (cs : List Char) : Bool :=
  (digitRun? Text.decimalDigit? (Text.spanSign cs).2).isSome

/-- Whether a run spells a number with a fraction or an exponent that is in the range of doubles, or
a special number. -/
def isFloat (cs : List Char) : Bool :=
  let body := (Text.spanSign cs).2
  if body = ['i', 'n', 'f'] || body = ['n', 'a', 'n'] then true
  else
    let whole := body.takeWhile fun c => c ≠ '.' && c ≠ 'e' && c ≠ 'E'
    (wholeNumber? whole).isSome && (Text.decimal? (body.filter (· ≠ '_'))).isSome &&
      match body.drop whole.length with
      | '.' :: rest =>
        let fraction := rest.takeWhile fun c => c ≠ 'e' && c ≠ 'E'
        (digitRun? Text.decimalDigit? fraction).isSome &&
          match rest.drop fraction.length with
          | [] => true
          | _ :: exponent => isExponent exponent
      | _ :: exponent => isExponent exponent
      | [] => false

/-- A number of exactly `count` digits in front, and what follows it. -/
def fixedDigits? (count : Nat) (cs : List Char) : Option (Nat × List Char) := do
  let digits ← (cs.take count).mapM Text.decimalDigit?
  if digits.length < count then none else return (Text.ofDigits 10 digits, cs.drop count)

/-- The number of days of a month. -/
def daysOfMonth (year month : Nat) : Nat :=
  if month = 2 then
    if year % 4 = 0 ∧ (year % 100 ≠ 0 ∨ year % 400 = 0) then 29 else 28
  else if month = 4 ∨ month = 6 ∨ month = 9 ∨ month = 11 then 30
  else 31

/-- What follows a date in front of the characters. -/
def afterDate? (cs : List Char) : Option (List Char) := do
  let (year, cs) ← fixedDigits? 4 cs
  let '-' :: cs := cs | none
  let (month, cs) ← fixedDigits? 2 cs
  let '-' :: cs := cs | none
  let (day, cs) ← fixedDigits? 2 cs
  if 1 ≤ month ∧ month ≤ 12 ∧ 1 ≤ day ∧ day ≤ daysOfMonth year month then return cs else none

/-- What follows a time of day in front of the characters. -/
def afterTime? (cs : List Char) : Option (List Char) := do
  let (hour, cs) ← fixedDigits? 2 cs
  let ':' :: cs := cs | none
  let (minute, cs) ← fixedDigits? 2 cs
  let ':' :: cs := cs | none
  let (second, cs) ← fixedDigits? 2 cs
  -- The 60th second is a leap second.
  if hour ≤ 23 ∧ minute ≤ 59 ∧ second ≤ 60 then
    match cs with
    | '.' :: rest =>
      match Text.spanDigits rest with
      | ([], _) => none
      | (_, rest) => return rest
    | cs => return cs
  else none

/-- Whether characters are an offset from universal time. -/
def isOffset (cs : List Char) : Bool :=
  match cs with
  | ['Z'] | ['z'] => true
  | sign :: rest =>
    if sign = '+' ∨ sign = '-' then
      match fixedDigits? 2 rest with
      | some (hour, ':' :: rest) =>
        match fixedDigits? 2 rest with
        | some (minute, []) => hour ≤ 23 && minute ≤ 59
        | _ => false
      | _ => false
    else false
  | [] => false

/-- Whether a run spells a date, a time, or both. -/
def isMoment (cs : List Char) : Bool :=
  match afterDate? cs with
  | some [] => true
  | some (c :: rest) =>
    (c = 'T' || c = 't' || c = ' ') &&
      match afterTime? rest with
      | some [] => true
      | some offset => isOffset offset
      | none => false
  | none => afterTime? cs = some []

/-- The characters that end a run of a value without quotes. -/
def endsRun (c : Char) : Bool :=
  isGap c || c = '\n' || c = '\r' || c = ',' || c = ']' || c = '\x7D' || c = '#'

/-- The run in front of the characters. A time of day may stand behind a date and a space. -/
def run (cs : List Char) : List Char :=
  let first := cs.takeWhile fun c => !endsRun c
  match cs.drop first.length with
  | ' ' :: c :: rest =>
    if afterDate? first = some [] ∧ c.isDigit then
      first ++ ' ' :: (c :: rest).takeWhile fun c => !endsRun c
    else first
  | _ => first

/-- Reads a value without quotes and brackets. -/
def bareValue? (cs : List Char) : Option (Value × List Char) := do
  let word := run cs
  let rest := cs.drop word.length
  if word = "true".toList then return (.boolean true, rest)
  if word = "false".toList then return (.boolean false, rest)
  if let some n := integer? word then
    -- An integer out of range is malformed; it is not read as anything else.
    if fits n then return (.integer n, rest) else none
  if isFloat word then return (.float, rest)
  if isMoment word then return (.moment, rest)
  none

end BuildEngine.Toml
