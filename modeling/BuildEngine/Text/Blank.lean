/-!
# Blank characters

The characters with the Unicode property `White_Space`, and trimming of a text at both ends.
Project files may hold any Unicode text, so the class is the whole property and not its
ASCII part.
-/

namespace BuildEngine.Text

/-- A character with the Unicode property `White_Space`. -/
def isBlank (c : Char) : Bool :=
  let n := c.toNat
  (0x09 ≤ n && n ≤ 0x0D) || n == 0x20 || n == 0x85 || n == 0xA0 || n == 0x1680 ||
    (0x2000 ≤ n && n ≤ 0x200A) || n == 0x2028 || n == 0x2029 || n == 0x202F ||
    n == 0x205F || n == 0x3000

/-- The characters without the blank ones in front. -/
def trimStart (cs : List Char) : List Char :=
  cs.dropWhile isBlank

/-- The characters without the blank ones at the end. -/
def trimEnd (cs : List Char) : List Char :=
  (cs.reverse.dropWhile isBlank).reverse

/-- The characters without blank ones at either end. -/
def trimChars (cs : List Char) : List Char :=
  trimEnd (trimStart cs)

/-- A text without blank characters at either end. -/
def trim (s : String) : String :=
  String.ofList (trimChars s.toList)

/-- A text that begins and ends with a character that is not blank, or is empty. -/
def IsTrimmed (cs : List Char) : Prop :=
  (∀ c, cs.head? = some c → isBlank c = false) ∧ (∀ c, cs.getLast? = some c → isBlank c = false)

instance (cs : List Char) : Decidable (IsTrimmed cs) :=
  decidable_of_iff (cs.head?.all (!isBlank ·) ∧ cs.getLast?.all (!isBlank ·))
    (by simp [IsTrimmed, Option.all_eq_true])

/-- The ASCII space is blank. -/
theorem isBlank_space : isBlank ' ' = true := by decide

variable {cs : List Char}

/-- No run of blank characters is taken where none stands in front. -/
theorem takeWhile_isBlank (h : ∀ c ∈ cs.head?, isBlank c = false) : cs.takeWhile isBlank = [] := by
  cases cs with
  | nil => rfl
  | cons c cs => exact List.takeWhile_cons_of_neg (by simpa using h)

/-- Nothing is dropped where no blank character stands in front. -/
theorem dropWhile_isBlank (h : ∀ c ∈ cs.head?, isBlank c = false) : cs.dropWhile isBlank = cs := by
  have hsplit := List.takeWhile_append_dropWhile (p := isBlank) (l := cs)
  rwa [takeWhile_isBlank h] at hsplit

/-- Nothing is trimmed off a trimmed text. -/
theorem trimChars_of_isTrimmed (h : IsTrimmed cs) : trimChars cs = cs := by
  have hend : ∀ c ∈ cs.reverse.head?, isBlank c = false := by
    rw [List.head?_reverse]
    exact h.2
  rw [trimChars, trimStart, dropWhile_isBlank h.1, trimEnd, dropWhile_isBlank hend,
    List.reverse_reverse]

end BuildEngine.Text
