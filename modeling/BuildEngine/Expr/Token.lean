import BuildEngine.Text.Blank
import BuildEngine.Text.Fold

/-!
# Tokens of the expression language

A text is cut into runs of blank characters, fifteen fixed symbols, and runs of anything else.
Every text can be cut, nothing of it is lost, and the longest symbol wins.

The tokens are said twice. `ofText` is what the parsers use, and `tokenize` goes through a text with
an offset as a scanner does, and could fail where no token begins.
-/

namespace BuildEngine

/-- The kinds of tokens. -/
inductive TokenKind where
  | blank
  | openBracket
  | closeBracket
  | equals
  | notEquals
  | less
  | lessOrEqual
  | greater
  | greaterOrEqual
  | and
  | or
  | not
  | quote
  | dollar
  | at
  | percent
  | semicolon
  | arrow
  | word
deriving DecidableEq, Repr

/-- A piece of expression text with its kind. -/
structure Token where
  /-- What the piece is. -/
  kind : TokenKind
  /-- The exact text of the piece. -/
  text : String
deriving DecidableEq, Repr

namespace Token

/-- The fixed symbols. A symbol stands before every other symbol that it begins with. -/
def symbols : List (List Char × TokenKind) :=
  [(['=', '='], .equals), (['!', '='], .notEquals), (['<', '='], .lessOrEqual),
    (['>', '='], .greaterOrEqual), (['-', '>'], .arrow), (['<'], .less), (['>'], .greater),
    (['!'], .not), (['('], .openBracket), ([')'], .closeBracket), (['\''], .quote),
    (['$'], .dollar), (['@'], .at), (['%'], .percent), ([';'], .semicolon)]

/-- The longest fixed symbol at the head of the characters. -/
def symbolAt? (cs : List Char) : Option (List Char × TokenKind) :=
  symbols.find? fun symbol => symbol.1.isPrefixOf cs

/-- A word that spells an operator in any case of letters is that operator. -/
def wordKind (s : String) : TokenKind :=
  if Text.sameFolded s "and" then .and
  else if Text.sameFolded s "or" then .or
  else .word

/-- The characters in front of the next blank character or symbol. -/
def wordChars : List Char → List Char
  | [] => []
  | c :: cs =>
    if Text.isBlank c || (symbolAt? (c :: cs)).isSome then [] else c :: wordChars cs

/-- The tokens of the characters, in order. -/
def ofChars : List Char → List Token
  | [] => []
  | c :: cs =>
    if Text.isBlank c then
      ⟨.blank, String.ofList (c :: cs.takeWhile Text.isBlank)⟩ ::
        ofChars (cs.dropWhile Text.isBlank)
    else
      match symbolAt? (c :: cs) with
      | some (symbol, kind) =>
        ⟨kind, String.ofList symbol⟩ :: ofChars (cs.drop (symbol.length - 1))
      | none =>
        let word := wordChars cs
        let text := String.ofList (c :: word)
        ⟨wordKind text, text⟩ :: ofChars (cs.drop word.length)
termination_by cs => cs.length
decreasing_by
  · have := (List.dropWhile_suffix (l := cs) Text.isBlank).length_le
    simp only [List.length_cons]; omega
  · simp only [List.length_drop, List.length_cons]; omega
  · simp only [List.length_drop, List.length_cons]; omega

/-- The tokens of a text, in order. -/
def ofText (s : String) : List Token :=
  ofChars s.toList

/-! ## The scanner -/

/-- Characters that no token begins. -/
structure CutError where
  /-- How many bytes were cut off before. -/
  offset : Nat
  /-- What is left. -/
  remainder : String
deriving DecidableEq, Repr

/-- The token that characters begin with: a run of blank characters, else a symbol, else a word,
which must not be empty. -/
def next? (cs : List Char) : Option Token :=
  let blanks := cs.takeWhile Text.isBlank
  if blanks ≠ [] then some ⟨.blank, String.ofList blanks⟩
  else
    match symbolAt? cs with
    | some (symbol, kind) => some ⟨kind, String.ofList symbol⟩
    | none =>
      let text := String.ofList (wordChars cs)
      if text = "" then none else some ⟨wordKind text, text⟩

/-- No fixed symbol is empty. -/
theorem ne_nil_of_mem_symbols : ∀ symbol ∈ symbols, symbol.1 ≠ [] := by decide

/-- A token takes something of the characters, so a scanner comes to their end. -/
theorem text_ne_nil_of_next? {cs : List Char} {t : Token} (h : next? cs = some t) :
    t.text.toList ≠ [] := by
  unfold next? at h
  dsimp only at h
  -- A run of blanks, a symbol, or a word: each of them is checked before it is taken.
  split at h
  · next hblanks =>
    cases h
    rwa [String.toList_ofList]
  · split at h
    · next symbol kind hsymbol =>
      cases h
      rw [String.toList_ofList]
      exact ne_nil_of_mem_symbols _ (List.mem_of_find?_eq_some hsymbol)
    · split at h
      · cases h
      · next hword =>
        cases h
        exact fun hnil => hword (String.toList_eq_nil_iff.1 hnil)

/-- The tokens of the characters behind `offset` bytes, or where no token begins. -/
def cutFrom (offset : Nat) (cs : List Char) : Except CutError (List Token) :=
  if hne : cs = [] then .ok []
  else
    match h : next? cs with
    | none => .error ⟨offset, String.ofList cs⟩
    | some t => do
      have : cs.length - t.text.toList.length < cs.length := by
        have hpos := List.length_pos_iff.2 hne
        have htext := List.length_pos_iff.2 (text_ne_nil_of_next? h)
        omega
      return t :: (← cutFrom (offset + t.text.utf8ByteSize) (cs.drop t.text.toList.length))
termination_by cs.length

/-- The tokens of a text, or where it cannot be cut. -/
def tokenize (s : String) : Except CutError (List Token) :=
  cutFrom 0 s.toList

end Token

end BuildEngine
