import BuildEngine.Text.Blank

/-!
# Lists written as text

A list travels as one text with `;` between its entries. Reading it back trims every entry
and leaves out the empty ones.
-/

namespace BuildEngine.Text

/-- The entries of a list text, as characters. -/
def entryChars (cs : List Char) : List (List Char) :=
  ((cs.splitOn ';').map trimChars).filter (fun entry => !entry.isEmpty)

/-- The entries of a list text: cut at every `;`, trimmed, without the empty ones. -/
def entries (s : String) : List String :=
  (entryChars s.toList).map String.ofList

/-- The text of a list: its entries with `;` between them. -/
def joinEntries (xs : List String) : String :=
  String.intercalate ";" xs

end BuildEngine.Text
