import BuildEngine.Text.Number
import BuildEngine.Text.Utf8

/-!
# Programs

The small programs that commands of a build are made of. A program is a function of its
arguments and its standard input: none of them looks at files other than the null device and
the endless file of zeros, and none changes any.
-/

namespace BuildEngine

/-- What a program wrote and how it ended. -/
structure Finished where
  /-- The exit code, which is negative for a program that was ended by a signal. -/
  code : Int
  /-- The bytes written to the standard output. -/
  standard : Text.Bytes
  /-- The bytes written to the standard error. -/
  diagnostics : Text.Bytes
deriving DecidableEq, Repr

namespace Finished

/-- A program that wrote nothing. -/
def silent (code : Int) : Finished :=
  ⟨code, [], []⟩

/-- A program that succeeded. -/
def success (standard : Text.Bytes) : Finished :=
  ⟨0, standard, []⟩

/-- A program that failed with a message. -/
def failure (code : Int) (message : String) : Finished :=
  ⟨code, [], Text.encode (message ++ "\n")⟩

end Finished

namespace Program

/-- The bytes that escapes with `\` stand for. -/
structure Unescaped where
  /-- The bytes. -/
  bytes : Text.Bytes
  /-- Whether an escape said to stop. -/
  stopped : Bool
deriving DecidableEq, Repr

/-- The byte of an escape of one letter. -/
def letterEscape? (c : Char) : Option UInt8 :=
  if c = 'a' then some 7 else if c = 'b' then some 8 else if c = 'e' then some 27
  else if c = 'f' then some 12 else if c = 'n' then some 10 else if c = 'r' then some 13
  else if c = 't' then some 9 else if c = 'v' then some 11 else if c = '\\' then some 92
  else if c = '"' then some 34 else none

/-- The value of an octal digit. -/
def octalDigit? (c : Char) : Option Nat :=
  if '0' ≤ c ∧ c ≤ '7' then some (c.toNat - '0'.toNat) else none

/-- Up to `count` digits in front, and how many there are. -/
def takeDigits (digit? : Char → Option Nat) : (count : Nat) → List Char → List Nat
  | 0, _ | _, [] => []
  | count + 1, c :: rest =>
    match digit? c with
    | some d => d :: takeDigits digit? count rest
    | none => []

/-- The bytes of a text with escapes. Numbers behind `\` have up to `octal` digits. -/
def unescape (octal : Nat) : (fuel : Nat) → List Char → Unescaped
  | 0, _ | _, [] => ⟨[], false⟩
  | fuel + 1, '\\' :: c :: rest =>
    let continueWith (front : Text.Bytes) (rest : List Char) : Unescaped :=
      let more := unescape octal fuel rest
      ⟨front ++ more.bytes, more.stopped⟩
    if c = 'c' then ⟨[], true⟩
    else
      match letterEscape? c, takeDigits octalDigit? octal (c :: rest), c with
      | some b, _, _ => continueWith [b] rest
      | none, d :: ds, _ =>
        continueWith [(Text.ofDigits 8 (d :: ds)).toUInt8] ((c :: rest).drop (ds.length + 1))
      | none, [], 'x' =>
        match takeDigits Text.hexDigit? 2 rest with
        | [] => continueWith (Text.encode "\\x") rest
        | ds => continueWith [(Text.ofDigits 16 ds).toUInt8] (rest.drop ds.length)
      | none, [], c => continueWith (Text.encode (String.ofList ['\\', c])) rest
  | fuel + 1, c :: rest =>
    let more := unescape octal fuel rest
    ⟨Text.encode (String.singleton c) ++ more.bytes, more.stopped⟩

/-- The bytes of a text with escapes. -/
def unescapeText (octal : Nat) (s : String) : Unescaped :=
  unescape octal (s.length + 1) s.toList

/-- The options in front of what `echo` writes: whether a line feed is left out and whether
escapes count. -/
def echoOptions (line escapes : Bool) : List String → Bool × Bool × List String
  | [] => (line, escapes, [])
  | a :: rest =>
    match a.toList with
    | '-' :: c :: cs =>
      if (c :: cs).all fun c => c = 'n' || c = 'e' || c = 'E' then
        echoOptions (line && !(c :: cs).contains 'n')
          ((c :: cs).foldl (fun e c => if c = 'n' then e else c = 'e') escapes) rest
      else (line, escapes, a :: rest)
    | _ => (line, escapes, a :: rest)

/-- What `echo` writes when its escapes count or not. -/
def echoText (line escapes : Bool) (words : List String) : Text.Bytes :=
  let text := String.intercalate " " words
  let body := if escapes then unescapeText 4 text else ⟨Text.encode text, false⟩
  body.bytes ++ if line && !body.stopped then [10] else []

/-- Writes its arguments with blanks between them. -/
def echo (arguments : List String) : Finished :=
  let (line, escapes, words) := echoOptions true false arguments
  .success (echoText line escapes words)

/-- Writes its arguments the way a shell does: escapes always count, and `-n` is the only
option. -/
def shellEcho : List String → Finished
  | "-n" :: words => .success (echoText false true words)
  | words => .success (echoText true true words)

/-- Text in a field of a width. -/
def pad (left zero : Bool) (width : Nat) (text : List Char) : List Char :=
  let missing := width - text.length
  if left then text ++ List.replicate missing ' '
  else if zero then
    match text with
    | '-' :: digits => '-' :: List.replicate missing '0' ++ digits
    | digits => List.replicate missing '0' ++ digits
  else List.replicate missing ' ' ++ text

/-- The number that an argument spells; nothing and anything else is zero. -/
def integer (s : String) : Int :=
  match Text.spanSign s.toList with
  | (negative, digits) =>
    let n : Int := Text.ofDigits 10 (Text.spanDigits digits).1
    if negative then -n else n

/-- What a conversion of `printf` makes of an argument. -/
def convert (left zero : Bool) (width : Nat) (precision : Option Nat) (conversion : Char)
    (argument : String) : Option Unescaped :=
  let shown (cs : List Char) (zero : Bool) : Option Unescaped :=
    some ⟨Text.encode (String.ofList (pad left zero width cs)), false⟩
  let digits (base : Nat) := Nat.toDigits base (integer argument).natAbs
  if conversion = 's' then
    shown (match precision with
      | some n => argument.toList.take n
      | none => argument.toList) false
  else if conversion = 'c' then shown (argument.toList.take 1) false
  else if conversion = 'b' then some (unescapeText 4 argument)
  else if conversion = 'd' ∨ conversion = 'i' then
    shown (if integer argument < 0 then '-' :: digits 10 else digits 10) zero
  else if conversion = 'u' then shown (digits 10) zero
  else if conversion = 'o' then shown (digits 8) zero
  else if conversion = 'x' then shown (digits 16) zero
  else if conversion = 'X' then shown ((digits 16).map Char.toUpper) zero
  else none

/-- A format that is being written. -/
structure Formatting where
  /-- The bytes so far. -/
  bytes : Text.Bytes
  /-- The arguments that are left. -/
  arguments : List String
  /-- Whether an argument was used. -/
  used : Bool
  /-- Whether an escape said to stop. -/
  stopped : Bool
deriving DecidableEq, Repr

/-- Writes a format once. -/
def format : (fuel : Nat) → List Char → Formatting → Formatting
  | 0, _, f | _, [], f => f
  | fuel + 1, '%' :: '%' :: rest, f => format fuel rest { f with bytes := f.bytes ++ [37] }
  | fuel + 1, '%' :: rest, f =>
    let flags := rest.takeWhile fun c => "-0 +#".toList.contains c
    let (width, rest) := Text.spanDigits (rest.drop flags.length)
    let (precision, rest) :=
      match rest with
      | '.' :: rest => (some (Text.ofDigits 10 (Text.spanDigits rest).1), (Text.spanDigits rest).2)
      | rest => (none, rest)
    match rest with
    | [] => { f with bytes := f.bytes ++ [37] }
    | conversion :: rest =>
      match convert (flags.contains '-') (flags.contains '0') (Text.ofDigits 10 width) precision
          conversion (f.arguments.head?.getD "") with
      | none => { f with stopped := true }
      | some out =>
        let f := { bytes := f.bytes ++ out.bytes, arguments := f.arguments.drop 1, used := true,
                   stopped := out.stopped : Formatting }
        if out.stopped then f else format fuel rest f
  | fuel + 1, '\\' :: rest, f =>
    let piece := '\\' :: rest.take 1
    let more := (rest.drop 1).takeWhile fun c => (Text.hexDigit? c).isSome
    let tail := if (rest.head?.bind octalDigit?).isSome then
        (more.takeWhile fun c => (octalDigit? c).isSome).take 2
      else if rest.head? = some 'x' then more.take 2
      else []
    let out := unescape 3 (tail.length + 2) (piece ++ tail)
    let f := { f with bytes := f.bytes ++ out.bytes, stopped := out.stopped }
    if out.stopped then f else format fuel (rest.drop (1 + tail.length)) f
  | fuel + 1, c :: rest, f =>
    format fuel rest { f with bytes := f.bytes ++ Text.encode (String.singleton c) }

/-- Writes a format again and again until the arguments are used up. -/
def formatAll (template : List Char) : (rounds : Nat) → Formatting → Text.Bytes
  | 0, f => f.bytes
  | rounds + 1, f =>
    let f := format (template.length + 1) template f
    if f.stopped || !f.used || f.arguments.isEmpty then f.bytes
    else formatAll template rounds f

/-- Writes its arguments in a format. -/
def printf : List String → Finished
  | [] =>
    .failure 1 "printf: missing operand\nTry 'printf --help' for more information."
  | template :: arguments =>
    .success (formatAll template.toList (arguments.length + 1) ⟨[], arguments, false, false⟩)

/-- The contents of the files that every host has. -/
def readDevice (limit : Nat) (name : String) : Option Text.Bytes :=
  if name = "/dev/null" then some []
  else if name = "/dev/zero" then some (List.replicate limit 0)
  else none

/-- What a file or the standard input holds, or why it cannot be read. -/
def inputOf (program : String) (limit : Nat) (input : Text.Bytes) (name : String) :
    Except String Text.Bytes :=
  if name = "-" then .ok input
  else
    match readDevice limit name with
    | some bytes => .ok bytes
    | none => .error (program ++ ": " ++ name ++ ": No such file or directory")

/-- Copies its input, or files, to its output. -/
def cat (arguments : List String) (input : Text.Bytes) : Finished :=
  (if arguments.isEmpty then ["-"] else arguments).foldl
    (fun f name =>
      match inputOf "cat" 0 input name with
      | .ok bytes => { f with standard := f.standard ++ bytes }
      | .error message =>
        { f with code := 1, diagnostics := f.diagnostics ++ Text.encode (message ++ "\n") })
    (.silent 0)

/-- The first lines of bytes. -/
def takeLines : (count : Nat) → Text.Bytes → Text.Bytes
  | 0, _ | _, [] => []
  | count + 1, b :: rest =>
    if b = 10 then b :: takeLines count rest else b :: takeLines (count + 1) rest

/-- How many lines end in bytes. -/
def lineCount (bytes : Text.Bytes) : Nat :=
  (bytes.filter fun b => b = 10).length

/-- Whether bytes are counted and not lines, how many, and the files to look at. -/
def headOptions : List String → Bool × Nat × List String
  | "-c" :: n :: files => ⟨true, (integer n).toNat, files⟩
  | "-n" :: n :: files => ⟨false, (integer n).toNat, files⟩
  | option :: files =>
    match option.toList with
    | '-' :: 'c' :: n => ⟨true, (integer (String.ofList n)).toNat, files⟩
    | '-' :: 'n' :: n => ⟨false, (integer (String.ofList n)).toNat, files⟩
    | '-' :: d :: n =>
      if d.isDigit then ⟨false, (integer (String.ofList (d :: n))).toNat, files⟩
      else ⟨false, 10, option :: files⟩
    | _ => ⟨false, 10, option :: files⟩
  | [] => ⟨false, 10, []⟩

/-- Writes the first or the last bytes or lines of its input. -/
def ends (program : String) (first : Bool) (arguments : List String) (input : Text.Bytes) :
    Finished :=
  let ⟨bytes, count, files⟩ := headOptions arguments
  match inputOf program count input (files.head?.getD "-") with
  | .error message => .failure 1 message
  | .ok contents =>
    .success <|
      if bytes then
        if first then contents.take count else contents.drop (contents.length - count)
      else if first then takeLines count contents
      else contents.drop (takeLines (lineCount contents - count) contents).length

/-- The bytes that a set of `tr` names. -/
def setBytes : List UInt8 → List UInt8
  | a :: 45 :: b :: rest =>
    if a ≤ b then
      (List.range (b.toNat - a.toNat + 1)).map (fun i => (a.toNat + i).toUInt8) ++ setBytes rest
    else a :: 45 :: b :: setBytes rest
  | a :: rest => a :: setBytes rest
  | [] => []

/-- The bytes of a set argument of `tr`. -/
def set (s : String) : List UInt8 :=
  setBytes (unescapeText 3 s).bytes

/-- Exchanges or deletes bytes of its input. -/
def tr (arguments : List String) (input : Text.Bytes) : Finished :=
  match arguments with
  | ["-d", old] =>
    let old := set old
    .success (input.filter fun b => !old.contains b)
  | [old, new] =>
    let old := set old
    let new := set new
    .success (input.map fun b =>
      match old.idxOf? b with
      | some i => (new[i]?).getD (new.getLast?.getD b)
      | none => b)
  | _ => .failure 1 "tr: missing operand\nTry 'tr --help' for more information."

/-- Whether a byte separates words. -/
def isBlankByte (b : UInt8) : Bool :=
  b = 32 || (9 ≤ b && b ≤ 13)

/-- How many words bytes hold; `inside` tells whether a word has begun. -/
def wordCount (inside : Bool) : Text.Bytes → Nat
  | [] => 0
  | b :: rest =>
    if isBlankByte b then wordCount false rest
    else (if inside then 0 else 1) + wordCount true rest

/-- Counts the bytes, lines or words of its input. -/
def wc (arguments : List String) (input : Text.Bytes) : Finished :=
  match arguments with
  | ["-c"] => .success (Text.encode (toString input.length ++ "\n"))
  | ["-l"] => .success (Text.encode (toString (lineCount input) ++ "\n"))
  | ["-w"] => .success (Text.encode (toString (wordCount false input) ++ "\n"))
  | _ =>
    let column (n : Nat) := String.ofList (pad false false 7 (toString n).toList)
    .success (Text.encode (String.intercalate " " [column (lineCount input),
      column (wordCount false input), column input.length] ++ "\n"))

/-- Writes the numbers from one to another. -/
def seq (arguments : List String) : Finished :=
  let (first, last) :=
    match arguments.map integer with
    | [last] => (1, last)
    | first :: last :: _ => (first, last)
    | [] => (1, 0)
  .success ((List.range (last - first + 1).toNat).flatMap fun (i : Nat) =>
    Text.encode (toString (first + (i : Int)) ++ "\n"))

/-- Compares texts and numbers, or asks for files; the status tells the result. `folder?` tells
whether a file is a directory, if it is there. -/
def test (folder? : String → Option Bool) : List String → Finished
  | "!" :: a :: rest =>
    let f := test folder? (a :: rest)
    if f.code = 0 then .silent 1 else if f.code = 1 then .silent 0 else f
  | ["-n", a] => verdict (a ≠ "")
  | ["-z", a] => verdict (a = "")
  | ["-d", a] => verdict (folder? a = some true)
  | ["-f", a] => verdict (folder? a = some false)
  | ["-e", a] | ["-r", a] | ["-x", a] => verdict (folder? a).isSome
  | ["-t", _] => verdict false
  | [a] => verdict (a ≠ "")
  | [a, op, b] =>
    if op = "=" then verdict (a = b)
    else if op = "!=" then verdict (a ≠ b)
    else if op = "-eq" then verdict (integer a = integer b)
    else if op = "-ne" then verdict (integer a ≠ integer b)
    else if op = "-lt" then verdict (integer a < integer b)
    else if op = "-le" then verdict (integer a ≤ integer b)
    else if op = "-gt" then verdict (integer a > integer b)
    else if op = "-ge" then verdict (integer a ≥ integer b)
    else .silent 2
  | _ => .silent 1
where
  /-- The status that tells a truth. -/
  verdict (b : Bool) : Finished :=
    .silent (if b then 0 else 1)

end Program

end BuildEngine
