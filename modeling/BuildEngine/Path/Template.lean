import BuildEngine.Path.Basic
import BuildEngine.Text.Alphanumeric

/-!
# Path templates

A path may be written with variables and a home directory in it.

* `$NAME` and `${NAME}` stand for the value of a variable. In braces a default may follow behind
  `:-`, which stands in for a variable that is empty or not set; an empty variable without a
  default stays written as it is.
* `$$` stands for one `$`. A `$` in front of anything else, or of a brace that is not closed,
  stands for itself.
* `~` in front, alone or before a `/`, stands for the home directory, unless it came from a
  variable.

A variable that is not set and has no default makes the template meaningless.
-/

namespace BuildEngine

/-- The variables of a process with their values. -/
abbrev Variables := List (String × String)

/-- A variable that a template needs is not set. -/
structure TemplateError where
  /-- The template. -/
  template : String
  /-- The name of the variable. -/
  name : String
deriving DecidableEq, Repr

/-- The message of a template error. -/
def TemplateError.message (e : TemplateError) : String :=
  "Failed to expand path template '" ++ e.template ++ "': error looking key '" ++ e.name ++
    "' up: environment variable not found"

/-- The home directory of a user whose variables do not tell one. -/
def defaultHome : String := "/root"

/-- The home directory that variables tell. -/
def homeOf (vars : Variables) : String :=
  match vars.lookup "HOME" with
  | some h => if h = "" then defaultHome else h
  | none => defaultHome

namespace Template

/-- Whether a character may stand in a name without braces. -/
def isNameChar (c : Char) : Bool :=
  Text.isAlphanumeric c || c = '_'

/-- The characters in front of the first `:-`, and those behind it. -/
def cutDefault : List Char → Option (List Char × List Char)
  | ':' :: '-' :: rest => some ([], rest)
  | c :: rest => (cutDefault rest).map fun (name, default) => (c :: name, default)
  | [] => none

/-- The text that stands in for a variable in braces. -/
def braced (vars : Variables) (inside : List Char) : Except String (List Char) :=
  let (name, default) := match cutDefault inside with
    | some (c :: name, default) => (c :: name, some default)
    | _ => (inside, none)
  match vars.lookup (String.ofList name), default with
  | some value, default =>
    if value ≠ "" then .ok value.toList
    else .ok (default.getD ('$' :: '\x7B' :: inside ++ ['\x7D']))
  | none, some default => .ok default
  | none, none => .error (String.ofList name)

/-- The text of characters whose variables are replaced by their values, or the name of one that
is not set. -/
def expandVariables (vars : Variables) (cs : List Char) : Except String (List Char) :=
  match cs with
  | [] => .ok []
  | '$' :: '\x7B' :: rest =>
    match h : rest.dropWhile (· ≠ '\x7D') with
    -- The brace is never closed, so the `$` stands for itself.
    | [] => do return '$' :: '\x7B' :: (← expandVariables vars rest)
    | _ :: behind => do
      have : behind.length < rest.length := by
        have le := (List.dropWhile_suffix (l := rest) (· ≠ '\x7D')).length_le
        rw [h] at le
        simp only [List.length_cons] at le
        omega
      let value ← braced vars (rest.takeWhile (· ≠ '\x7D'))
      return value ++ (← expandVariables vars behind)
  | '$' :: '$' :: rest => do return '$' :: (← expandVariables vars rest)
  | '$' :: rest =>
    let name := rest.takeWhile isNameChar
    if name = [] then do return '$' :: (← expandVariables vars rest)
    else do
      have : (rest.dropWhile isNameChar).length ≤ rest.length :=
        (List.dropWhile_suffix (l := rest) isNameChar).length_le
      match vars.lookup (String.ofList name) with
      | some value =>
        return value.toList ++ (← expandVariables vars (rest.dropWhile isNameChar))
      | none => throw (String.ofList name)
  | c :: rest => do return c :: (← expandVariables vars rest)
termination_by cs.length

/-- The text whose home directory in front is replaced. -/
def expandHome (vars : Variables) (cs : List Char) : List Char :=
  match cs with
  | ['~'] => (homeOf vars).toList
  | '~' :: '/' :: rest => (homeOf vars).toList ++ '/' :: rest
  | cs => cs

/-- The path that a template stands for. -/
def expand (vars : Variables) (template : String) : Except TemplateError Path :=
  match expandVariables vars template.toList with
  | .error name => .error ⟨template, name⟩
  | .ok cs =>
    -- A `~` that a variable brought in is no home directory.
    let fromVariable := cs.head? = some '~' ∧ template.toList.head? ≠ some '~'
    .ok ⟨String.ofList (if fromVariable then cs else expandHome vars cs)⟩

end Template

end BuildEngine
