/-!
# Bindings

A finite map from names to texts, kept as pairs in the order of their names. Two maps with the
same bindings are therefore equal, whatever the order in which they were made.
-/

namespace BuildEngine

/-- Names with their values, in the order of the names. -/
abbrev Bindings := List (String × String)

namespace Bindings

/-- The value bound to a name. -/
def get? : Bindings → String → Option String
  | [], _ => none
  | (n, v) :: rest, name => if n = name then some v else get? rest name

/-- Binds a name, in place of any value it had. -/
def set : Bindings → String → String → Bindings
  | [], name, value => [(name, value)]
  | (n, v) :: rest, name, value =>
    if n = name then (name, value) :: rest
    else if name < n then (name, value) :: (n, v) :: rest
    else (n, v) :: set rest name value

/-- Binds every pair in turn, so the last value of a name stays. -/
def setAll (b : Bindings) (pairs : List (String × String)) : Bindings :=
  pairs.foldl (fun b p => b.set p.1 p.2) b

/-- A name has the value that it was bound to. -/
@[simp]
theorem get?_set_self (b : Bindings) (name value : String) :
    (b.set name value).get? name = some value := by
  induction b with
  | nil => simp [set, get?]
  | cons p rest ih =>
    simp only [set]
    split
    · simp [get?]
    · split
      · simp [get?]
      · rename_i h _; simp [get?, h, ih]

/-- Binding a name leaves the values of all others as they are. -/
theorem get?_set_of_ne (b : Bindings) {name other : String} (value : String)
    (h : other ≠ name) : (b.set name value).get? other = b.get? other := by
  induction b with
  | nil => simp [set, get?, h.symm]
  | cons p rest ih =>
    simp only [set]
    split
    · rename_i hp; subst hp; simp [get?, h.symm]
    · split
      · simp [get?, h.symm]
      · simp [get?, ih]

end Bindings

end BuildEngine
