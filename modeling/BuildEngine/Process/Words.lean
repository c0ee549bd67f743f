/-!
# Words of a command line

A command line is cut into words the way a shell does it. Blanks, tabs and line feeds separate
words.

* `\` takes the character behind it as it is; a line feed behind it goes away.
* Between `'` every character stands for itself.
* Between `"` every character stands for itself, except that `\` takes `$`, the grave accent,
  `"` and `\` as they are, removes a line feed, and otherwise stands for itself.
* `#` in front of a word begins a comment, which ends with the line.

A quotation that is not closed, or a `\` at the very end, makes the line unreadable.
-/

namespace BuildEngine.Words

/-- Whether a character separates words. -/
def isSeparator (c : Char) : Bool :=
  c = ' ' || c = '\t' || c = '\n'

/-- Characters that lose the `\` in front of them between `"`. -/
def isEscapable (c : Char) : Bool :=
  c = '$' || c = '\x60' || c = '"' || c = '\\'

/-- Where the reading of a command line stands. -/
inductive State where
  /-- Between words. -/
  | between
  /-- In a comment. -/
  | comment
  /-- In a word, outside quotations. -/
  | word
  /-- Between `'`. -/
  | single
  /-- Between `"`. -/
  | double
  /-- Behind a `\` outside quotations. -/
  | escape
  /-- Behind a `\` between `"`. -/
  | doubleEscape
deriving DecidableEq, Repr

/-- Cuts characters into words, given the words and the characters of the current word so far,
both with the last one in front. -/
def cut : State → (words : List (List Char)) → (word : List Char) → List Char →
    Option (List (List Char))
  | .between, words, _, [] | .comment, words, _, [] => some words.reverse
  | .word, words, word, [] => some (word.reverse :: words).reverse
  | .single, _, _, [] | .double, _, _, [] | .escape, _, _, [] | .doubleEscape, _, _, [] => none
  | .between, words, _, c :: rest =>
    if isSeparator c then cut .between words [] rest
    else if c = '#' then cut .comment words [] rest
    else if c = '"' then cut .double words [] rest
    else if c = '\'' then cut .single words [] rest
    else if c = '\\' then cut .escape words [] rest
    else cut .word words [c] rest
  | .comment, words, _, c :: rest =>
    if c = '\n' then cut .between words [] rest else cut .comment words [] rest
  | .word, words, word, c :: rest =>
    if isSeparator c then cut .between (word.reverse :: words) [] rest
    else if c = '"' then cut .double words word rest
    else if c = '\'' then cut .single words word rest
    else if c = '\\' then cut .escape words word rest
    else cut .word words (c :: word) rest
  | .single, words, word, c :: rest =>
    if c = '\'' then cut .word words word rest else cut .single words (c :: word) rest
  | .double, words, word, c :: rest =>
    if c = '"' then cut .word words word rest
    else if c = '\\' then cut .doubleEscape words word rest
    else cut .double words (c :: word) rest
  | .escape, words, word, c :: rest =>
    cut .word words (if c = '\n' then word else c :: word) rest
  | .doubleEscape, words, word, c :: rest =>
    if c = '\n' then cut .double words word rest
    else if isEscapable c then cut .double words (c :: word) rest
    else cut .double words (c :: '\\' :: word) rest

/-- The words of a command line. -/
def split (line : String) : Option (List String) :=
  (cut .between [] [] line.toList).map fun words => words.map String.ofList

end BuildEngine.Words
