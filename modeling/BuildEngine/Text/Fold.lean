/-!
# Comparison without ASCII case

Keywords, function names, well-known metadata names and the operands of `==` are compared
without regard to the case of the ASCII letters. Other letters keep their case.
-/

namespace BuildEngine.Text

/-- A text with its ASCII capitals made small. -/
def fold (s : String) : List Char :=
  s.toList.map Char.toLower

/-- Two texts that differ at most in the case of ASCII letters. -/
def sameFolded (s t : String) : Bool :=
  fold s == fold t

/-- Comparison without case is reflexive. -/
@[simp]
theorem sameFolded_self (s : String) : sameFolded s s = true := by
  simp [sameFolded]

end BuildEngine.Text
