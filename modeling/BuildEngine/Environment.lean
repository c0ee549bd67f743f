import BuildEngine.Item.Basic

/-!
# Environments

An environment holds the properties, items and task outputs that expressions refer to. It is a
stack of levels: writing changes the innermost level, reading looks outwards. An item is known
by its type and identity. Listing items yields those of the outer levels in their order, with
inner ones in the place of those they replace, and then the items that are new at the inner
level; an item removed at a level is hidden from there inwards.
-/

namespace BuildEngine

/-- What makes two items the same: their type and identity. -/
structure ItemKey where
  /-- The type of the item. -/
  type : String
  /-- The identity of the item. -/
  identity : String
deriving DecidableEq, Repr

/-- The key of an item. -/
def Item.key (i : Item) : ItemKey :=
  ⟨i.type, i.identity⟩

/-- The items of one level, with an index that tells where the entry of a key stands. -/
structure ItemStore where
  /-- The items added at this level, in the order of their first addition. -/
  entries : List Item
  /-- The places of the entries, by their keys. -/
  index : List (ItemKey × Nat)
  /-- The keys removed at this level. -/
  removed : List ItemKey
deriving DecidableEq, Repr

namespace ItemStore

/-- A level without items. -/
def empty : ItemStore :=
  ⟨[], [], []⟩

/-- The place of a key among the entries. -/
def index? (s : ItemStore) (k : ItemKey) : Option Nat :=
  s.index.lookup k

/-- The item of a key. -/
def find? (s : ItemStore) (k : ItemKey) : Option Item :=
  (s.index? k).bind fun n => s.entries[n]?

/-- The index of entries. -/
def indexOf (entries : List Item) : List (ItemKey × Nat) :=
  entries.zipIdx.map fun (i, n) => (i.key, n)

/-- Adds an item in the place of the entry with its key, or at the end; its key is removed no
longer. -/
def insert (s : ItemStore) (item : Item) : ItemStore :=
  let removed := s.removed.filter fun k => k ≠ item.key
  match s.index? item.key with
  | some n => { s with entries := s.entries.set n item, removed }
  | none =>
    { entries := s.entries ++ [item]
      index := (item.key, s.entries.length) :: s.index
      removed }

/-- Removes a key from this level and hides it from the outer ones. -/
def erase (s : ItemStore) (k : ItemKey) : ItemStore :=
  let removed := if k ∈ s.removed then s.removed else k :: s.removed
  match s.index? k with
  | some _ =>
    -- The entries behind the one that goes away move up.
    let entries := s.entries.filter fun i => i.key ≠ k
    { entries, index := indexOf entries, removed }
  | none => { s with removed }

end ItemStore

/-- One level of an environment. -/
structure Level where
  /-- The properties set at this level. -/
  properties : Bindings
  /-- The items added and removed at this level. -/
  items : ItemStore
  /-- The task outputs set at this level. -/
  outputs : Bindings
deriving DecidableEq, Repr

namespace Level

/-- A level with nothing in it. -/
def empty : Level :=
  ⟨[], .empty, []⟩

/-- The items seen at a level of which the outer levels show `inherited`: inherited items that
are not removed, each replaced by the local item of its key. -/
def substituted (l : Level) (inherited : List Item) : List Item :=
  inherited.filterMap fun i =>
    if i.key ∈ l.items.removed then none else some ((l.items.find? i.key).getD i)

/-- The items of a type that a level adds to those it inherits. -/
def added (l : Level) (type : String) (inherited : List Item) : List Item :=
  l.items.entries.filter fun i =>
    i.type = type && !((l.substituted inherited).any fun j => j.key = i.key)

end Level

/-- Levels from the innermost outwards. -/
structure Environment where
  /-- The level that writing changes. -/
  inner : Level
  /-- The levels that reading goes on to, the nearest first. -/
  outer : List Level
deriving DecidableEq, Repr

namespace Environment

/-- One empty level. -/
def empty : Environment :=
  ⟨.empty, []⟩

instance : Inhabited Environment := ⟨empty⟩

/-- An empty level inside an environment. -/
def child (env : Environment) : Environment :=
  ⟨.empty, env.inner :: env.outer⟩

/-- The environment around the innermost level. -/
def parent? (env : Environment) : Option Environment :=
  match env.outer with
  | [] => none
  | l :: rest => some ⟨l, rest⟩

/-- The levels, innermost first. -/
def levels (env : Environment) : List Level :=
  env.inner :: env.outer

/-- The innermost value of a property. -/
def property? (env : Environment) (name : String) : Option String :=
  env.levels.findSome? fun l => l.properties.get? name

/-- The value of a property; one that is set nowhere is empty. -/
def property (env : Environment) (name : String) : String :=
  (env.property? name).getD ""

/-- Sets a property at the innermost level. -/
def setProperty (env : Environment) (name value : String) : Environment :=
  { env with inner := { env.inner with properties := env.inner.properties.set name value } }

/-- The item of a key as seen through levels. -/
def itemIn (k : ItemKey) : List Level → Option Item
  | [] => none
  | l :: rest =>
    match l.items.find? k with
    | some i => some i
    | none => if k ∈ l.items.removed then none else itemIn k rest

/-- The item of a type and identity. -/
def item? (env : Environment) (type identity : String) : Option Item :=
  itemIn ⟨type, identity⟩ env.levels

/-- The items of a type as seen through levels. -/
def itemsIn (type : String) : List Level → List Item
  | [] => []
  | l :: rest =>
    let inherited := itemsIn type rest
    l.substituted inherited ++ l.added type inherited

/-- The items of a type. -/
def items (env : Environment) (type : String) : List Item :=
  itemsIn type env.levels

/-- Adds an item, or replaces the one of the same type and identity. -/
def addItem (env : Environment) (item : Item) : Environment :=
  { env with inner := { env.inner with items := env.inner.items.insert item } }

/-- Removes an item, leaving the outer levels as they are. -/
def removeItem (env : Environment) (type identity : String) : Environment :=
  { env with inner := { env.inner with items := env.inner.items.erase ⟨type, identity⟩ } }

/-- The innermost value of a task output. -/
def output? (env : Environment) (name : String) : Option String :=
  env.levels.findSome? fun l => l.outputs.get? name

/-- Sets a task output at the innermost level. -/
def setOutput (env : Environment) (name value : String) : Environment :=
  { env with inner := { env.inner with outputs := env.inner.outputs.set name value } }

end Environment

end BuildEngine
