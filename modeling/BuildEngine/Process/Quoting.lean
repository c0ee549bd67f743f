import BuildEngine.Process.Words

/-!
# Quoting of words

Words are written as a command line that a shell would cut into the same words. A word is written
bare where it can be, between `'` otherwise, and between `"` where `'` will not do. A word that
needs both is written in several pieces, each as long as one kind of writing goes.

* Bare are ASCII letters, digits and `+-./:@]_`.
* Between `'` stands anything but `'` and `\`, and `^` only in front.
* Between `"` stands anything but the grave accent, `$`, `!` and `^`.

No writing is known for a word with a character NUL in it.
-/

namespace BuildEngine.Quoting

/-- How a piece of a word is written. -/
inductive Style where
  | bare
  | single
  | double
deriving DecidableEq, Repr

namespace Style

/-- Whether a character may be written in a style. -/
def allows : Style → Char → Bool
  | bare, c =>
    ('a' ≤ c && c ≤ 'z') || ('A' ≤ c && c ≤ 'Z') || ('0' ≤ c && c ≤ '9') ||
      "+-./:@]_".toList.contains c
  | single, c => !(c = '\'' || c = '^' || c = '\\')
  | double, c => !(c = '\x60' || c = '$' || c = '!' || c = '^')

/-- The text of a piece in a style. -/
def write : Style → List Char → List Char
  | bare, piece => piece
  | single, piece => '\'' :: piece ++ ['\'']
  | double, piece =>
    '"' :: piece.flatMap (fun c => if Words.isEscapable c then ['\\', c] else [c]) ++ ['"']

end Style

/-- The styles in the order of preference. -/
def styles : List Style :=
  [.bare, .single, .double]

/-- The longest piece in front that one of the styles can write whole, the style, and what
follows the piece. -/
def piece : List Style → List Char → List Char × List Style × List Char
  | allowed, [] => ([], allowed, [])
  | allowed, c :: rest =>
    -- A style stays possible as long as it allows every character of the piece.
    let still := allowed.filter fun s => s.allows c
    if still = [] then ([], allowed, c :: rest)
    else
      let (more, last, behind) := piece still rest
      (c :: more, last, behind)

/-- The first piece of a word that begins with `c`. -/
def firstPiece (c : Char) (rest : List Char) : List Char × List Style × List Char :=
  -- `^` may only stand in front of a piece between `'`.
  let allowed := if c = '^' then [Style.single] else styles.filter fun s => s.allows c
  let (more, last, behind) := piece allowed rest
  (c :: more, last, behind)

/-- A piece is taken from the front. -/
theorem piece_length (allowed : List Style) (cs : List Char) :
    (piece allowed cs).2.2.length ≤ cs.length := by
  induction cs generalizing allowed with
  | nil => simp [piece]
  | cons c rest ih =>
    simp only [piece]
    split
    · simp
    · exact Nat.le_succ_of_le (ih _)

/-- The pieces of a word, each in the best style that it allows. -/
def writePieces : List Char → List Char
  | [] => []
  | c :: rest =>
    (((firstPiece c rest).2.1.head?).getD .double).write (firstPiece c rest).1 ++
      writePieces (firstPiece c rest).2.2
termination_by cs => cs.length
decreasing_by
  simp only [firstPiece, List.length_cons]
  exact Nat.lt_succ_of_le (piece_length _ _)

/-- The text of a word, unless it has a NUL in it. -/
def quote? (word : String) : Option String :=
  if word = "" then some "''"
  else if word.toList.contains '\x00' then none
  else some (String.ofList (writePieces word.toList))

/-- The command line of words. -/
def join? (words : List String) : Option String :=
  (words.mapM quote?).map (String.intercalate " ")

end BuildEngine.Quoting
