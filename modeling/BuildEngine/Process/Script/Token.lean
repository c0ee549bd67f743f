import BuildEngine.Process.Words

/-!
# Tokens of a script

A script is cut into words, operators and redirections. A word is made of text and of parts whose
text is only known when the script runs: parameters such as `$name`, the output of scripts such as
`$(pwd)`, and sums such as `$((1 + 2))`. Blanks, tabs and line feeds separate words, and `#` in
front of a word begins a comment.
-/

namespace BuildEngine.Script

/-- A part of a word. -/
inductive Part where
  /-- Characters that stand for themselves. -/
  | text (cs : List Char)
  /-- The value of a parameter; one that is not quoted is cut into fields. -/
  | parameter (name : List Char) (quoted : Bool)
  /-- What a script writes. -/
  | output (script : List Char) (quoted : Bool)
  /-- The value of a sum. -/
  | sum (terms : List Char) (quoted : Bool)
deriving DecidableEq, Repr

/-- A word of a script. -/
structure Word where
  /-- Its parts, in order. -/
  parts : List Part
  /-- Whether something in it was quoted; then it is a word even when it is empty. -/
  quoted : Bool
deriving DecidableEq, Repr

/-- A token of a script. -/
inductive Token where
  | word (w : Word)
  /-- An operator that ends a command. -/
  | operator (text : List Char)
  /-- A redirection of a stream. -/
  | redirect (stream : Nat) (text : List Char)
deriving DecidableEq, Repr

/-- Where the reading of a script stands. -/
inductive Mode where
  | between
  | comment
  | word
  | single
  | double
  | escape
  | doubleEscape
  /-- Behind a `$`. -/
  | dollar (quoted : Bool)
  /-- In the name of a parameter. -/
  | name (quoted : Bool)
  /-- In the name of a parameter in braces. -/
  | braced (quoted : Bool)
  /-- In a script in brackets, with so many brackets open in it. -/
  | bracketed (quoted : Bool) (depth : Nat)
  /-- In a script between grave accents. -/
  | grave (quoted : Bool)
  /-- Behind a `\` between grave accents. -/
  | graveEscape (quoted : Bool)
  /-- Behind the first character of an operator. -/
  | operator (first : Char)
  /-- Behind the first character of a redirection. -/
  | redirect (stream : Nat) (first : Char)
deriving DecidableEq, Repr

/-- What has been read of a script; lists have the last element in front. -/
structure Reading where
  /-- Where the reading stands. -/
  mode : Mode
  /-- The tokens so far. -/
  tokens : List Token
  /-- The parts of the current word so far. -/
  parts : List Part
  /-- The characters of the current part so far. -/
  text : List Char
  /-- Whether something in the current word was quoted. -/
  quoted : Bool
deriving DecidableEq, Repr

namespace Reading

/-- Nothing has been read. -/
def start : Reading :=
  ⟨.between, [], [], [], false⟩

/-- Adds a character to the current part. -/
def push (r : Reading) (mode : Mode) (c : Char) : Reading :=
  { r with mode, text := c :: r.text }

/-- Ends the current part of text. -/
def endText (r : Reading) : Reading :=
  if r.text = [] then r else { r with parts := .text r.text.reverse :: r.parts, text := [] }

/-- Ends a part that is not text. -/
def endPart (r : Reading) (quoted : Bool) (part : List Char → Bool → Part) : Reading :=
  { r with
    mode := if quoted then .double else .word
    parts := part r.text.reverse quoted :: r.parts
    text := [] }

/-- Ends the name of a parameter. -/
def endName (r : Reading) (quoted : Bool) : Reading :=
  r.endPart quoted .parameter

/-- The part that a text in brackets behind a `$` stands for: brackets around all of it make it
a sum. -/
def bracketedPart (text : List Char) (quoted : Bool) : Part :=
  if text.head? = some '(' ∧ text.getLast? = some ')' then
    .sum (text.drop 1).dropLast quoted
  else .output text quoted

/-- Ends the current word. -/
def endWord (r : Reading) : Reading :=
  let r := r.endText
  let tokens := if r.parts = [] ∧ !r.quoted then r.tokens
    else .word ⟨r.parts.reverse, r.quoted⟩ :: r.tokens
  { r with mode := .between, tokens, parts := [], quoted := false }

/-- Adds a token between words. -/
def add (r : Reading) (t : Token) : Reading :=
  { r with mode := .between, tokens := t :: r.tokens }

/-- The stream that a redirection behind the current word is about, if that word is a single
digit; and the reading without it then. -/
def takeStream (r : Reading) (c : Char) : Reading :=
  match r.parts, r.text, r.quoted with
  | [], [d], false =>
    if '0' ≤ d ∧ d ≤ '9' then { r with mode := .redirect (d.toNat - '0'.toNat) c, text := [] }
    else { r.endWord with mode := .redirect (if c = '<' then 0 else 1) c }
  | _, _, _ => { r.endWord with mode := .redirect (if c = '<' then 0 else 1) c }

/-- Reads a character outside quotations. -/
def plain (r : Reading) (c : Char) : Reading :=
  if c = ' ' ∨ c = '\t' then r.endWord
  else if c = '\n' then r.endWord.add (.operator ['\n'])
  else if c = '#' ∧ r.mode = .between then { r with mode := .comment }
  else if c = '\'' then { r with mode := .single, quoted := true }
  else if c = '"' then { r with mode := .double, quoted := true }
  else if c = '\\' then { r with mode := .escape, quoted := true }
  else if c = '$' then { r.endText with mode := .dollar false }
  else if c = '\x60' then { r.endText with mode := .grave false }
  else if c = '(' ∨ c = ')' then r.endWord.add (.operator [c])
  else if c = ';' ∨ c = '&' ∨ c = '|' then { r.endWord with mode := .operator c }
  else if c = '<' ∨ c = '>' then r.takeStream c
  else r.push .word c

/-- Reads a character between `"`. -/
def quotedChar (r : Reading) (c : Char) : Reading :=
  if c = '"' then { r with mode := .word }
  else if c = '\\' then { r with mode := .doubleEscape }
  else if c = '$' then { r.endText with mode := .dollar true }
  else if c = '\x60' then { r.endText with mode := .grave true }
  else r.push .double c

/-- Reads a character of text, between `"` or outside. -/
def textChar (r : Reading) (quoted : Bool) (c : Char) : Reading :=
  if quoted then { r with mode := .double }.quotedChar c else { r with mode := .word }.plain c

/-- Whether a character may stand in the name of a variable. -/
def isNameChar (c : Char) : Bool :=
  c.isAlphanum || c = '_'

/-- Reads a character. -/
def step (r : Reading) (c : Char) : Reading :=
  match r.mode with
  | .between | .word => r.plain c
  | .comment => if c = '\n' then r.add (.operator ['\n']) else r
  | .single => if c = '\'' then { r with mode := .word } else r.push .single c
  | .double => r.quotedChar c
  | .escape => if c = '\n' then { r with mode := .word } else r.push .word c
  | .doubleEscape =>
    if c = '\n' then { r with mode := .double }
    else if Words.isEscapable c then r.push .double c
    else { r with mode := .double, text := c :: '\\' :: r.text }
  | .dollar quoted =>
    if c = '\x7B' then { r with mode := .braced quoted }
    else if c = '(' then { r with mode := .bracketed quoted 0 }
    else if c.isAlpha || c = '_' then { r with mode := .name quoted, text := [c] }
    else if c.isDigit || "?$#@*!-".toList.contains c then { r with text := [c] }.endName quoted
    else { r with text := ['$'] }.textChar quoted c
  | .name quoted =>
    if isNameChar c then { r with text := c :: r.text } else (r.endName quoted).textChar quoted c
  | .braced quoted => if c = '\x7D' then r.endName quoted else { r with text := c :: r.text }
  | .bracketed quoted 0 =>
    if c = ')' then r.endPart quoted bracketedPart
    else r.push (.bracketed quoted (if c = '(' then 1 else 0)) c
  | .bracketed quoted (depth + 1) =>
    let depth := if c = '(' then depth + 2 else if c = ')' then depth else depth + 1
    r.push (.bracketed quoted depth) c
  | .grave quoted =>
    if c = '\x60' then r.endPart quoted .output
    else if c = '\\' then { r with mode := .graveEscape quoted }
    else r.push (.grave quoted) c
  | .graveEscape quoted =>
    let text := if c = '$' ∨ c = '\x60' ∨ c = '\\' then c :: r.text else c :: '\\' :: r.text
    { r with mode := .grave quoted, text }
  | .operator first =>
    -- `&&`, `||`; the operator `;` is always alone.
    if c = first ∧ first ≠ ';' then r.add (.operator [first, c])
    else (r.add (.operator [first])).plain c
  | .redirect stream first =>
    if c = '&' ∨ (c = '>' ∧ first = '>') then r.add (.redirect stream [first, c])
    else (r.add (.redirect stream [first])).plain c

/-- The tokens of a script that has been read to its end, unless a quotation is open. -/
def finish (r : Reading) : Option (List Token) :=
  match r.mode with
  | .between | .comment => some r.tokens.reverse
  | .word => some r.endWord.tokens.reverse
  | .dollar false => some { r with text := ['$'] }.endWord.tokens.reverse
  | .name false => some (r.endName false).endWord.tokens.reverse
  | .operator first => some (r.add (.operator [first])).tokens.reverse
  | .redirect stream first => some (r.add (.redirect stream [first])).tokens.reverse
  | .escape => some (r.push .word '\\').endWord.tokens.reverse
  | .single | .double | .doubleEscape | .dollar true | .name true | .braced _ | .bracketed ..
  | .grave _ | .graveEscape _ => none

end Reading

/-- The tokens of a script, unless a quotation is open at its end. -/
def tokens? (script : String) : Option (List Token) :=
  (script.toList.foldl Reading.step .start).finish

end BuildEngine.Script
