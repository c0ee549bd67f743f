import BuildEngine.Text.Blank

/-!
# Numbers in text

The numbers that relational operators compare: decimal numbers with an optional fraction and
exponent, and hexadecimal integers of 64 bits behind `0x`. Each stands for the nearest double;
a text whose double would be infinite is no number.
-/

namespace BuildEngine.Text

/-- The value of a decimal digit. -/
def decimalDigit? (c : Char) : Option Nat :=
  if '0' ≤ c ∧ c ≤ '9' then some (c.toNat - '0'.toNat) else none

/-- The value of a hexadecimal digit in either case. -/
def hexDigit? (c : Char) : Option Nat :=
  if '0' ≤ c ∧ c ≤ '9' then some (c.toNat - '0'.toNat)
  else if 'a' ≤ c ∧ c ≤ 'f' then some (c.toNat - 'a'.toNat + 10)
  else if 'A' ≤ c ∧ c ≤ 'F' then some (c.toNat - 'A'.toNat + 10)
  else none

/-- The number that digits write in a base. -/
def ofDigits (base : Nat) (digits : List Nat) : Nat :=
  digits.foldl (fun n d => n * base + d) 0

/-- The decimal digits in front, and what follows them. -/
def spanDigits (cs : List Char) : List Nat × List Char :=
  match cs with
  | [] => ([], [])
  | c :: rest =>
    match decimalDigit? c with
    | some d => ((d :: (spanDigits rest).1), (spanDigits rest).2)
    | none => ([], c :: rest)

/-- A sign in front, as whether the number is negative, and what follows it. -/
def spanSign : List Char → Bool × List Char
  | '-' :: rest => (true, rest)
  | '+' :: rest => (false, rest)
  | cs => (false, cs)

/-- The exponent that the rest of a number spells; nothing at all is the exponent zero. -/
def exponent? : List Char → Option Int
  | [] => some 0
  | c :: rest =>
    if c = 'e' ∨ c = 'E' then
      match spanSign rest with
      | (negative, digits) =>
        match spanDigits digits with
        | ([], _) => none
        | (ds, []) => some (if negative then -(ofDigits 10 ds : Int) else ofDigits 10 ds)
        | _ => none
    else none

/-- The double nearest to `mantissa · 10 ^ exponent`, if it is finite. Magnitudes beyond the
range of doubles are told by the number of digits. -/
def nearestDouble? (mantissa : Nat) (exponent : Int) : Option Float :=
  let magnitude : Int := (Nat.toDigits 10 mantissa).length + exponent
  if mantissa = 0 ∨ magnitude < -330 then some 0
  else if magnitude > 310 then none
  else
    let x := Float.ofScientific mantissa (exponent < 0) exponent.natAbs
    if x.isFinite then some x else none

/-- The decimal number that characters spell. -/
def decimal? (cs : List Char) : Option Float :=
  let (negative, body) := spanSign cs
  let (whole, rest) := spanDigits body
  let (fraction, rest) :=
    match rest with
    | '.' :: rest => spanDigits rest
    | rest => ([], rest)
  if whole = [] ∧ fraction = [] then none
  else do
    let e ← exponent? rest
    let x ← nearestDouble? (ofDigits 10 (whole ++ fraction)) (e - fraction.length)
    return if negative then -x else x

/-- The hexadecimal integer that characters spell, if it fits into 64 bits. -/
def hexadecimal? (cs : List Char) : Option Float :=
  let (negative, body) := spanSign cs
  if body = [] then none
  else do
    let n := ofDigits 16 (← body.mapM hexDigit?)
    if n > (if negative then Int64.minValue else Int64.maxValue).toInt.natAbs then none
    else return Float.ofInt (if negative then -(n : Int) else n)

/-- The number that a text spells, blank characters around it aside. -/
def number? (s : String) : Option Float :=
  match trimChars s.toList with
  | '0' :: 'x' :: rest => hexadecimal? rest
  | '0' :: 'X' :: rest => hexadecimal? rest
  | cs => decimal? cs

end BuildEngine.Text
