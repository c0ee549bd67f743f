import BuildEngine.Bindings

/-!
# Items

An item is a thing a build works on: it has a type, an identity, which is what the project file
includes, and metadata.
-/

namespace BuildEngine

/-- A thing a build works on. -/
structure Item where
  /-- The type of the item. -/
  type : String
  /-- The identity of the item among those of its type. -/
  identity : String
  /-- The metadata of the item. -/
  metadata : Bindings
deriving DecidableEq, Repr

namespace Item

/-- An item without metadata. -/
def ofIdentity (type identity : String) : Item :=
  ⟨type, identity, []⟩

/-- The same item under another type. -/
def retype (i : Item) (type : String) : Item :=
  { i with type }

end Item

end BuildEngine
