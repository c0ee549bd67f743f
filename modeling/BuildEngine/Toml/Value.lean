/-!
# TOML values

The values of TOML documents, and how tables grow while a document is read: which table may be
opened by a header, which may be extended through a dotted key, and which is closed for good.
-/

namespace BuildEngine.Toml

/-- How a table came about, which decides what may still be added to it. -/
inductive Origin where
  /-- It was opened by a header. -/
  | header
  /-- It was implied by the header of a table inside it. -/
  | implied
  /-- It was made by a dotted key. -/
  | dotted
  /-- It was written between braces. -/
  | inline
deriving DecidableEq, Repr, Inhabited

/-- A value of a document. -/
inductive Value where
  | text (s : String)
  | integer (n : Int)
  | float
  | boolean (b : Bool)
  | moment
  /-- An array; `ofTables` tells whether it was made by headers. -/
  | array (ofTables : Bool) (elements : List Value)
  | table (origin : Origin) (entries : List (String × Value))
deriving Repr, Inhabited

/-- The keys of a table with their values. -/
abbrev Entries := List (String × Value)

/-- A table while it is read. -/
structure Table where
  /-- How the table came about. -/
  origin : Origin
  /-- What it holds so far, in the order of the document. -/
  entries : Entries
deriving Inhabited

/-- A finished table as a value. -/
def Table.toValue (t : Table) : Value :=
  .table t.origin t.entries

/-- The value of a key. -/
def find? (entries : Entries) (key : String) : Option Value :=
  (entries.find? fun e => e.1 = key).map Prod.snd

/-- Puts a value in the place of the one of its key, or at the end. -/
def put (entries : Entries) (key : String) (value : Value) : Entries :=
  match entries with
  | [] => [(key, value)]
  | (k, v) :: rest => if k = key then (key, value) :: rest else (k, v) :: put rest key value

namespace Table

/-- Changes the table that a path of keys leads to. Tables that are missing are made, an array
of tables leads to its last one. A dotted key may only pass through tables that no header
opened, and nothing passes through a table between braces. -/
def modifyAt (dotted : Bool) (f : Table → Option Table) : List String → Table → Option Table
  | [], t => f t
  | key :: path, t =>
    match find? t.entries key with
    | none => do
      let child ← modifyAt dotted f path ⟨if dotted then .dotted else .implied, []⟩
      return { t with entries := put t.entries key child.toValue }
    | some (.table origin entries) =>
      if origin = .inline ∨ (dotted ∧ origin = .header) then none
      else do
        let child ← modifyAt dotted f path ⟨origin, entries⟩
        return { t with entries := put t.entries key child.toValue }
    | some (.array true elements) =>
      match elements.getLast? with
      | some (.table origin entries) => do
        let child ← modifyAt dotted f path ⟨origin, entries⟩
        return { t with
          entries := put t.entries key (.array true (elements.dropLast ++ [child.toValue])) }
      | _ => none
    | some _ => none

/-- Adds a key that must be new. -/
def addNew (key : String) (value : Value) (t : Table) : Option Table :=
  match find? t.entries key with
  | some _ => none
  | none => some { t with entries := put t.entries key value }

/-- Adds the value of a dotted key: the table that its front leads to must be made of dotted
keys only. -/
def addDotted (path : List String) (key : String) (value : Value) (t : Table) : Option Table :=
  match path with
  | [] => addNew key value t
  | path =>
    modifyAt true (fun parent => if parent.origin = .dotted then addNew key value parent else none)
      path t

/-- Opens the table of a header: a new one, or one that other headers implied. -/
def openTable (path : List String) (key : String) (t : Table) : Option Table :=
  modifyAt false (fun parent =>
    match find? parent.entries key with
    | none => some { parent with entries := put parent.entries key (.table .header []) }
    | some (.table .implied entries) =>
      some { parent with entries := put parent.entries key (.table .header entries) }
    | some _ => none) path t

/-- Opens one more table of an array of tables. -/
def openElement (path : List String) (key : String) (t : Table) : Option Table :=
  modifyAt false (fun parent =>
    match find? parent.entries key with
    | none =>
      some { parent with entries := put parent.entries key (.array true [.table .header []]) }
    | some (.array true elements) =>
      some { parent with
        entries := put parent.entries key (.array true (elements ++ [.table .header []])) }
    | some _ => none) path t

end Table

end BuildEngine.Toml
