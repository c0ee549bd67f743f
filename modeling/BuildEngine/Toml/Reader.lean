import BuildEngine.Toml.Scalar

/-!
# Reading TOML documents

A document is a sequence of lines, each a header, a key with its value, or nothing, with a
comment behind it or not.
-/

namespace BuildEngine.Toml

/-- Why a document is no TOML, or has another shape than asked for. -/
inductive Error where
  /-- The statement on this line is malformed, or clashes with an earlier one. -/
  | statement (line : Nat)
  /-- A key has no meaning here. -/
  | unknownKey (key : String)
  /-- A key is missing. -/
  | missingKey (key : String)
  /-- A value has the wrong type. -/
  | wrongType (key : String)
  /-- A word is none of those that are allowed. -/
  | unknownWord (word : String)
deriving DecidableEq, Repr

/-- The message of an error. -/
def Error.message : Error → String
  | statement line => "TOML parse error at line " ++ toString line
  | unknownKey key => "TOML parse error: unknown field " ++ key
  | missingKey key => "TOML parse error: missing field " ++ key
  | wrongType key => "TOML parse error: invalid type of " ++ key
  | unknownWord word => "TOML parse error: unknown variant " ++ word

/-- How deep values may be nested. -/
def maxDepth : Nat := 80

/-- The characters behind a comment. If they do not begin with a line break it is malformed. -/
def dropComment : List Char → List Char
  | '#' :: rest => rest.dropWhile isCommentChar
  | cs => cs

/-- The characters behind gaps, line breaks and comments; nothing if a comment is malformed.
`inComment` tells whether the characters stand in a comment. -/
def dropSpread (inComment : Bool) : List Char → Option (List Char)
  | [] => some []
  | '\n' :: rest => dropSpread false rest
  | '\r' :: '\n' :: rest => dropSpread false rest
  | c :: rest =>
    if inComment then if isCommentChar c then dropSpread true rest else none
    else if isGap c then dropSpread false rest
    else if c = '#' then dropSpread true rest
    else some (c :: rest)

/-- The characters of a key without quotes. -/
def isKeyChar (c : Char) : Bool :=
  c.isAlphanum || c = '_' || c = '-'

/-- Reads one part of a key. -/
def keyPart? (cs : List Char) : Option (String × List Char) :=
  match cs with
  | '"' :: rest => (basicString cs.length rest).map fun (s, rest) => (String.ofList s, rest)
  | '\'' :: rest => (literalString rest).map fun (s, rest) => (String.ofList s, rest)
  | cs =>
    let word := cs.takeWhile isKeyChar
    if word = [] then none else some (String.ofList word, cs.drop word.length)

/-- Reads a key: parts with dots between them, and gaps around the dots. -/
def key? (cs : List Char) : Option (List String × List Char) := do
  let (part, rest) ← keyPart? (cs.dropWhile isGap)
  match rest.dropWhile isGap with
  | '.' :: rest =>
    -- The rest is always shorter; asking makes the recursion end.
    if rest.length < cs.length then
      let (parts, rest) ← key? rest
      return (part :: parts, rest)
    else none
  | rest => return ([part], rest)
termination_by cs.length

/-- Reads elements separated by commas up to a closing character. The closing character may
stand first if `mayClose`, and behind a comma if `trailing`. -/
def elements {α : Type} (gap : List Char → Option (List Char)) (element : Reader α) (close : Char)
    (trailing mayClose : Bool) (cs : List Char) : Option (List α × List Char) := do
  match ← gap cs with
  | [] => none
  | c :: rest =>
    -- Nothing between the last separator and the end.
    if c = close then if mayClose then return ([], rest) else none
    else
      let (x, rest) ← element (c :: rest)
      match ← gap rest with
      | [] => none
      | d :: rest =>
        if d = close then return ([x], rest)
        else if d = ',' ∧ rest.length < cs.length then
          let (xs, rest) ← elements gap element close trailing trailing rest
          return (x :: xs, rest)
        else none
termination_by cs.length
decreasing_by simp_all

/-- Reads a key and the value behind it. -/
def keyValue? (value : Reader Value) (cs : List Char) :
    Option ((List String × Value) × List Char) := do
  let (path, rest) ← key? cs
  match rest with
  | '=' :: rest => do
    let (v, rest) ← value (rest.dropWhile isGap)
    return ((path, v), rest)
  | _ => none

/-- Adds the value of a key, dotted or not. -/
def addKeyValue (t : Table) (path : List String) (value : Value) : Option Table :=
  match path.getLast? with
  | some key => t.addDotted path.dropLast key value
  | none => none

/-- Reads a value that may nest `depth` deep. -/
def value? : (depth : Nat) → Reader Value
  | 0, _ => none
  | depth + 1, cs =>
    match cs with
    | '[' :: rest => do
      let (xs, rest) ← elements (dropSpread false) (value? depth) ']' true true rest
      return (.array false xs, rest)
    | '\x7B' :: rest => do
      let gap := fun cs : List Char => some (cs.dropWhile isGap)
      let (pairs, rest) ← elements gap (keyValue? (value? depth)) '\x7D' false true rest
      let t ← pairs.foldlM (fun t (p : List String × Value) => addKeyValue t p.1 p.2)
        (⟨.inline, []⟩ : Table)
      return (t.toValue, rest)
    | '"' :: _ | '\'' :: _ => do
      let (s, rest) ← string? cs
      return (.text (String.ofList s), rest)
    | cs => bareValue? cs

/-- What a line of a document says. -/
inductive Statement where
  | nothing
  | header (path : List String)
  | elementHeader (path : List String)
  | assignment (path : List String) (value : Value)

/-- Reads a statement, without what may follow it on its line. -/
def statement? (cs : List Char) : Option (Statement × List Char) :=
  match cs.dropWhile isGap with
  | [] => some (.nothing, [])
  | '[' :: '[' :: rest => do
    let (path, rest) ← key? rest
    match rest with
    | ']' :: ']' :: rest => return (.elementHeader path, rest)
    | _ => none
  | '[' :: rest => do
    let (path, rest) ← key? rest
    match rest with
    | ']' :: rest => return (.header path, rest)
    | _ => none
  | c :: rest =>
    if c = '\n' ∨ c = '\r' ∨ c = '#' then some (.nothing, c :: rest)
    else do
      let ((path, v), rest) ← keyValue? (value? maxDepth) (c :: rest)
      return (.assignment path v, rest)

/-- The characters of the next line behind a statement, which only a comment may follow. -/
def nextLine? (cs : List Char) : Option (List Char) :=
  match dropComment (cs.dropWhile isGap) with
  | [] => some []
  | '\n' :: rest => some rest
  | '\r' :: '\n' :: rest => some rest
  | _ => none

/-- A document while it is read: its root, and the table that headers have opened last. -/
structure Document where
  /-- The table of the whole document. -/
  root : Table
  /-- The path of the open table. -/
  opened : List String

/-- Adds what a statement says. -/
def Document.apply (d : Document) : Statement → Option Document
  | .nothing => some d
  | .header path => do
    let root ← d.root.openTable path.dropLast (path.getLast?.getD "")
    return ⟨root, path⟩
  | .elementHeader path => do
    let root ← d.root.openElement path.dropLast (path.getLast?.getD "")
    return ⟨root, path⟩
  | .assignment path value => do
    let root ← d.root.modifyAt false (addKeyValue · path value) d.opened
    return { d with root }

/-- Reads the statements of a document, the first of which is on the given line. -/
def statements (line : Nat) (d : Document) (cs : List Char) : Except Error Document :=
  if cs = [] then .ok d
  else
    let next := do
      let (s, rest) ← statement? cs
      let d ← d.apply s
      return (d, ← nextLine? rest)
    match next with
    | none => .error (.statement line)
    | some (d, rest) =>
      if rest.length < cs.length then
        statements (line + (cs.take (cs.length - rest.length)).count '\n') d rest
      else .error (.statement line)
termination_by cs.length

/-- The entries of a document; a byte order mark in front is left out. -/
def parse (s : String) : Except Error Entries := do
  let cs := match s.toList with
    | '\uFEFF' :: cs => cs
    | cs => cs
  return (← statements 1 ⟨⟨.header, []⟩, []⟩ cs).root.entries

end BuildEngine.Toml
