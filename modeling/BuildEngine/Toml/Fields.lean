import BuildEngine.Toml.Reader

/-!
# Fields of TOML tables

Reading a table as a record: fields by name and type, with a check that no other field is there.
A record inside another one may also be written as an array of its fields in their order, of which
the last ones may be missing.
-/

namespace BuildEngine.Toml.Fields

/-- Refuses keys other than the known ones. -/
def allow (entries : Entries) (known : List String) : Except Error Unit :=
  match entries.find? fun e => e.1 ∉ known with
  | some (key, _) => .error (.unknownKey key)
  | none => .ok ()

/-- A text that may be absent. -/
def text? (entries : Entries) (key : String) : Except Error (Option String) :=
  match find? entries key with
  | none => .ok none
  | some (.text s) => .ok (some s)
  | some _ => .error (.wrongType key)

/-- A text that must be there. -/
def text (entries : Entries) (key : String) : Except Error String := do
  match ← text? entries key with
  | some s => return s
  | none => .error (.missingKey key)

/-- A text that is empty if absent. -/
def textD (entries : Entries) (key : String) : Except Error String := do
  return (← text? entries key).getD ""

/-- A truth value with a default. -/
def flag (entries : Entries) (key : String) (default : Bool) : Except Error Bool :=
  match find? entries key with
  | none => .ok default
  | some (.boolean b) => .ok b
  | some _ => .error (.wrongType key)

/-- A number of at most 64 bits with a default. -/
def count (entries : Entries) (key : String) (default : Nat) : Except Error Nat :=
  match find? entries key with
  | none => .ok default
  | some (.integer n) =>
    if 0 ≤ n ∧ n < UInt64.size then .ok n.toNat else .error (.wrongType key)
  | some _ => .error (.wrongType key)

/-- The fields of a value that is a record: those of a table, or the elements of an array in the
order of the known fields. -/
def record? (known : List String) : Value → Option Entries
  | .table _ inner => some inner
  | .array _ elements => some (known.zip elements)
  | _ => none

/-- A record, without fields if absent. -/
def record (entries : Entries) (key : String) (known : List String) : Except Error Entries :=
  match find? entries key with
  | none => .ok []
  | some v =>
    match record? known v with
    | some inner => .ok inner
    | none => .error (.wrongType key)

/-- An array of records without other fields than the known ones, empty if absent. -/
def records (entries : Entries) (key : String) (known : List String) :
    Except Error (List Entries) :=
  match find? entries key with
  | none => .ok []
  | some (.array _ elements) =>
    elements.mapM fun v => do
      match record? known v with
      | some inner =>
        allow inner known
        return inner
      | none => throw (.wrongType key)
  | some _ => .error (.wrongType key)

/-- A table that may be absent. -/
def table? (entries : Entries) (key : String) : Except Error (Option Entries) :=
  match find? entries key with
  | none => .ok none
  | some (.table _ inner) => .ok (some inner)
  | some _ => .error (.wrongType key)

/-- An array of tables, empty if absent. -/
def tables (entries : Entries) (key : String) : Except Error (List Entries) :=
  match find? entries key with
  | none => .ok []
  | some (.array _ elements) =>
    elements.mapM fun
      | .table _ inner => .ok inner
      | _ => .error (.wrongType key)
  | some _ => .error (.wrongType key)

/-- An array of texts that may be absent. -/
def texts? (entries : Entries) (key : String) : Except Error (Option (List String)) :=
  match find? entries key with
  | none => .ok none
  | some (.array _ elements) => do
    let texts ← elements.mapM fun
      | .text s => .ok s
      | _ => .error (.wrongType key)
    return some texts
  | some _ => .error (.wrongType key)

/-- The texts of a table, whatever its keys. -/
def textPairs (entries : Entries) : Except Error (List (String × String)) :=
  entries.mapM fun
    | (key, .text s) => .ok (key, s)
    | (key, _) => .error (.wrongType key)

end BuildEngine.Toml.Fields
