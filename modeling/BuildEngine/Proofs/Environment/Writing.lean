import BuildEngine.Proofs.Environment.Items
import Mathlib.Data.List.Basic

/-!
# Items after a write

What one write does to the list of items. Removing an item takes the one item of its key out of the
list. Adding an item leaves every item of another key where it is (`filter_items_addItem`); the item
itself stands in the place of the one with its key if that is seen (`items_addItem_of_seen`), and at
the end if neither the innermost level nor the levels around it show the key
(`items_addItem_of_new`). Where the innermost level hides a key, adding it again makes it reappear
in the place that the outer levels give it (`keys_items_of_parent?`).

The list of a level is put together from what it inherits and from its own entries, so each of these
is shown for both parts, `Level.substituted` and `Level.added`.
-/

namespace BuildEngine

/-- What stands in the place of an item when another one is added: that one if both have the same
key. -/
def Item.replacedBy (old new : Item) : Item :=
  if old.key = new.key then new else old

namespace Item

variable {old new : Item}

/-- An item gives way to one of the same key. -/
theorem replacedBy_of_key_eq (h : old.key = new.key) : old.replacedBy new = new :=
  if_pos h

/-- An item does not give way to one of another key. -/
theorem replacedBy_of_key_ne (h : old.key ≠ new.key) : old.replacedBy new = old :=
  if_neg h

/-- An item is replaced by one of its own key. -/
@[simp]
theorem key_replacedBy (old new : Item) : (old.replacedBy new).key = old.key := by
  unfold replacedBy
  split
  · next h => exact h.symm
  · rfl

/-- Where no item has the key of the new one, nothing is replaced. -/
theorem map_replacedBy_of_forall_ne {items : List Item} (h : ∀ i ∈ items, i.key ≠ new.key) :
    items.map (·.replacedBy new) = items := by
  rw [List.map_congr_left fun i hi => replacedBy_of_key_ne (h i hi), List.map_id']

/-- Items of other keys are not replaced. -/
theorem filter_map_replacedBy (items : List Item) (new : Item) :
    (items.map (·.replacedBy new)).filter (fun i => i.key ≠ new.key) =
      items.filter fun i => i.key ≠ new.key := by
  have hkey : (fun i : Item => decide (i.key ≠ new.key)) ∘ (fun i : Item => i.replacedBy new) =
      fun i => decide (i.key ≠ new.key) := by
    funext i
    simp
  have hkept : ∀ i ∈ items.filter fun i => i.key ≠ new.key, i.key ≠ new.key := by
    intro i hi
    exact of_decide_eq_true (List.mem_filter.1 hi).2
  rw [List.filter_map, hkey, map_replacedBy_of_forall_ne hkept]

/-- Among items of different keys just one is replaced, where it stands. -/
theorem map_replacedBy_eq_set {items : List Item} {n : Nat} (hnodup : (items.map Item.key).Nodup)
    (hold : items[n]? = some old) (hkey : old.key = new.key) :
    items.map (·.replacedBy new) = items.set n new := by
  -- No two items of the list have one key, so the replaced one is found at one place only.
  induction items generalizing n with
  | nil => cases hold
  | cons i items ih =>
    rw [List.map_cons, List.nodup_cons] at hnodup
    cases n with
    | zero =>
      rw [List.getElem?_cons_zero] at hold
      cases hold
      have hne : ∀ j ∈ items, j.key ≠ new.key := by
        intro j hj hjkey
        exact hnodup.1 (List.mem_map.2 ⟨j, hj, hjkey.trans hkey.symm⟩)
      rw [List.map_cons, replacedBy_of_key_eq hkey, map_replacedBy_of_forall_ne hne,
        List.set_cons_zero]
    | succ n =>
      rw [List.getElem?_cons_succ] at hold
      have hne : i.key ≠ new.key := by
        intro hi
        exact hnodup.1 (List.mem_map.2 ⟨old, List.mem_of_getElem? hold, hkey.trans hi.symm⟩)
      rw [List.map_cons, replacedBy_of_key_ne hne, ih hnodup.2 hold, List.set_cons_succ]

/-- Among items of different keys just one has the key of an item that is among them. -/
theorem filter_key_eq {items : List Item} {i : Item} (hnodup : (items.map Item.key).Nodup)
    (hi : i ∈ items) : items.filter (fun j => j.key = i.key) = [i] := by
  induction items with
  | nil => cases hi
  | cons j items ih =>
    rw [List.map_cons, List.nodup_cons] at hnodup
    -- The item is the head, and nothing behind it has its key, or the head is another item.
    rcases List.mem_cons.1 hi with rfl | hi
    · have hne : ∀ j ∈ items, ¬ decide (j.key = i.key) = true := by
        intro j hj hjkey
        exact hnodup.1 (List.mem_map.2 ⟨j, hj, of_decide_eq_true hjkey⟩)
      rw [List.filter_cons_of_pos (by simp), List.filter_eq_nil_iff.2 hne]
    · have hne : j.key ≠ i.key := by
        intro hj
        exact hnodup.1 (List.mem_map.2 ⟨i, hi, hj.symm⟩)
      rw [List.filter_cons_of_neg (by simpa using hne), ih hnodup.2 hi]

end Item

/-! ## The store of a level -/

namespace ItemStore

variable {s : ItemStore} {i item : Item} {k k' : ItemKey}

/-- What is added is removed no longer. -/
theorem mem_removed_insert_iff :
    k ∈ (s.insert item).removed ↔ k ∈ s.removed ∧ k ≠ item.key := by
  unfold insert
  split <;> simp

/-- What is removed joins those removed before. -/
theorem mem_removed_erase_iff : k' ∈ (s.erase k).removed ↔ k' = k ∨ k' ∈ s.removed := by
  have h : k' ∈ (if k ∈ s.removed then s.removed else k :: s.removed) ↔
      k' = k ∨ k' ∈ s.removed := by
    split
    · next hk => exact ⟨.inr, fun h => h.elim (fun heq => heq ▸ hk) id⟩
    · exact List.mem_cons
  unfold erase
  cases s.index? k <;> exact h

/-- A key is not found exactly if the index does not know it. -/
theorem find?_eq_none_iff_index? (h : s.Indexed) : s.find? k = none ↔ s.index? k = none := by
  rw [h.find?_eq_none_iff, Option.eq_none_iff_forall_ne_some]
  constructor
  · intro hne n hn
    obtain ⟨i, hi, hkey⟩ := h.index?_eq_some_iff.1 hn
    exact hne i (List.mem_of_getElem? hi) hkey
  · intro hnone i hi hkey
    obtain ⟨n, hn⟩ := List.mem_iff_getElem?.1 hi
    exact hnone n (h.index?_eq_some_iff.2 ⟨i, hn, hkey⟩)

/-- Removing a key takes its entry away, if there is one. -/
theorem Indexed.entries_erase (h : s.Indexed) (k : ItemKey) :
    (s.erase k).entries = s.entries.filter fun i => i.key ≠ k := by
  unfold ItemStore.erase
  cases hindex : s.index? k with
  | some n => rfl
  | none =>
    have hne := h.find?_eq_none_iff.1 ((find?_eq_none_iff_index? h).2 hindex)
    exact (List.filter_eq_self.2 fun i hi => decide_eq_true (hne i hi)).symm

/-- An item of a key that the store does not have comes last. -/
theorem Indexed.entries_insert_of_new (h : s.Indexed) (hnew : s.find? item.key = none) :
    (s.insert item).entries = s.entries ++ [item] := by
  unfold ItemStore.insert
  rw [(find?_eq_none_iff_index? h).1 hnew]

/-- An item of a key that the store has takes the place of the entry. -/
theorem Indexed.entries_insert_of_known (h : s.Indexed) (hknown : (s.find? item.key).isSome) :
    (s.insert item).entries = s.entries.map (·.replacedBy item) := by
  cases hindex : s.index? item.key with
  | none =>
    rw [(find?_eq_none_iff_index? h).2 hindex] at hknown
    cases hknown
  | some n =>
    obtain ⟨old, hold, hkey⟩ := h.index?_eq_some_iff.1 hindex
    rw [Item.map_replacedBy_eq_set h.nodup_keys hold hkey]
    unfold ItemStore.insert
    rw [hindex]

/-- After an item is inserted the entries are that one and those of other keys. -/
theorem Indexed.mem_entries_insert_iff (h : s.Indexed) :
    i ∈ (s.insert item).entries ↔ i = item ∨ i ∈ s.entries ∧ i.key ≠ item.key := by
  cases hfind : s.find? item.key with
  -- An unknown item is put behind the others, a known one takes the place of the old.
  | none =>
    have hne := h.find?_eq_none_iff.1 hfind
    rw [h.entries_insert_of_new hfind, List.mem_append, List.mem_singleton, or_comm]
    exact or_congr_right (and_iff_left_of_imp (hne i)).symm
  | some old =>
    obtain ⟨hold, holdkey⟩ := h.find?_eq_some_iff.1 hfind
    rw [h.entries_insert_of_known (hfind ▸ rfl), List.mem_map]
    constructor
    · rintro ⟨j, hj, rfl⟩
      by_cases hkey : j.key = item.key
      · exact .inl (Item.replacedBy_of_key_eq hkey)
      · rw [Item.replacedBy_of_key_ne hkey]
        exact .inr ⟨hj, hkey⟩
    · rintro (rfl | ⟨hi, hkey⟩)
      · exact ⟨old, hold, Item.replacedBy_of_key_eq holdkey⟩
      · exact ⟨i, hi, Item.replacedBy_of_key_ne hkey⟩

/-- An inserted item is found by its key, and all else as before. -/
theorem Indexed.find?_insert (h : s.Indexed) (item : Item) (k : ItemKey) :
    (s.insert item).find? k = if k = item.key then some item else s.find? k := by
  refine Option.ext fun i => ?_
  -- The key asked for is the one written, or the lookup is as before.
  rw [(h.insert item).find?_eq_some_iff, h.mem_entries_insert_iff]
  split
  · next hk =>
    subst hk
    constructor
    · rintro ⟨rfl | ⟨-, hne⟩, hkey⟩
      · rfl
      · exact absurd hkey hne
    · rintro ⟨⟩
      exact ⟨.inl rfl, rfl⟩
  · next hk =>
    rw [h.find?_eq_some_iff]
    constructor
    · rintro ⟨rfl | ⟨hi, -⟩, hkey⟩
      · exact absurd hkey.symm hk
      · exact ⟨hi, hkey⟩
    · rintro ⟨hi, rfl⟩
      exact ⟨.inr ⟨hi, hk⟩, rfl⟩

/-- A removed key is not found, and all else as before. -/
theorem Indexed.find?_erase (h : s.Indexed) (k k' : ItemKey) :
    (s.erase k).find? k' = if k' = k then none else s.find? k' := by
  refine Option.ext fun i => ?_
  rw [(h.erase k).find?_eq_some_iff, h.entries_erase, List.mem_filter, decide_eq_true_eq]
  -- The erased key is found no more, any other as before.
  split
  · next hk =>
    subst hk
    constructor
    · rintro ⟨⟨-, hne⟩, hkey⟩
      exact absurd hkey hne
    · rintro ⟨⟩
  · next hk =>
    rw [h.find?_eq_some_iff]
    constructor
    · rintro ⟨⟨hi, -⟩, hkey⟩
      exact ⟨hi, hkey⟩
    · rintro ⟨hi, rfl⟩
      exact ⟨⟨hi, hk⟩, rfl⟩

/-- What is stored is not hidden. -/
theorem Indexed.not_mem_removed_of_find? (h : s.Indexed) (hfind : s.find? k = some i) :
    k ∉ s.removed := by
  obtain ⟨hi, rfl⟩ := h.find?_eq_some_iff.1 hfind
  exact h.not_mem_removed hi

end ItemStore

/-! ## One level -/

namespace Level

variable {l : Level} {i item : Item} {k : ItemKey} {inherited : List Item} {type : String}

/-- A level after an item is added to it. -/
def add (l : Level) (item : Item) : Level :=
  { l with items := l.items.insert item }

/-- A level after a key is removed from it. -/
def remove (l : Level) (k : ItemKey) : Level :=
  { l with items := l.items.erase k }

/-- Inherited items are gone through one after the other. -/
theorem substituted_cons (l : Level) (i : Item) (inherited : List Item) :
    l.substituted (i :: inherited) =
      if i.key ∈ l.items.removed then l.substituted inherited
      else (l.items.find? i.key).getD i :: l.substituted inherited := by
  by_cases h : i.key ∈ l.items.removed <;> simp [substituted, h]

/-- Of the inherited items one of a removed key is seen no more. -/
theorem substituted_remove (h : l.items.Indexed) (k : ItemKey) (inherited : List Item) :
    (l.remove k).substituted inherited =
      (l.substituted inherited).filter fun i => i.key ≠ k := by
  induction inherited with
  | nil => rfl
  | cons i inherited ih =>
    have hkey := key_getD_find? h i
    simp only [substituted_cons, remove, h.find?_erase, ItemStore.mem_removed_erase_iff] at ih ⊢
    rw [ih]
    by_cases hk : i.key = k
    · -- The item of the key is left out, whether it was seen before or not.
      rw [if_pos (.inl hk)]
      split
      · rfl
      · rw [List.filter_cons_of_neg (by simpa [hkey] using hk)]
    -- Any other item is left out and substituted as before.
    · simp only [hk, false_or, if_false]
      split
      · rfl
      · rw [List.filter_cons_of_pos (by simpa [hkey] using hk)]

/-- Of the items that a level adds one of a removed key is seen no more. -/
theorem added_remove (h : l.items.Indexed) (k : ItemKey) (inherited : List Item) :
    (l.remove k).added type inherited =
      (l.added type inherited).filter fun i => i.key ≠ k := by
  unfold added
  rw [substituted_remove h, remove, h.entries_erase, List.filter_filter, List.filter_filter]
  refine List.filter_congr fun i _ => ?_
  by_cases hk : i.key = k
  · simp [hk]
  · -- Among the items of this key nothing was left out.
    have hany : ((l.substituted inherited).filter fun j => j.key ≠ k).any
        (fun j => j.key = i.key) = (l.substituted inherited).any fun j => j.key = i.key := by
      rw [List.any_filter]
      congr 1
      funext j
      by_cases hj : j.key = i.key <;> simp [hj, hk]
    rw [hany, Bool.and_comm]

/-- Adding an item changes nothing of inherited items with other keys. -/
theorem filter_substituted_add (h : l.items.Indexed) (item : Item) (inherited : List Item) :
    ((l.add item).substituted inherited).filter (fun i => i.key ≠ item.key) =
      (l.substituted inherited).filter fun i => i.key ≠ item.key := by
  induction inherited with
  | nil => rfl
  | cons i inherited ih =>
    have hkey := key_getD_find? h i
    simp only [substituted_cons, add, h.find?_insert, ItemStore.mem_removed_insert_iff] at ih ⊢
    by_cases hk : i.key = item.key
    -- The item of this key is filtered out on both sides, whatever the level holds for it.
    · simp only [hk, ne_eq, not_true_eq_false, and_false, if_false, if_true, Option.getD_some]
      rw [List.filter_cons_of_neg (by simp), ih]
      split
      · rfl
      · rw [List.filter_cons_of_neg (by simpa [hk] using hkey)]
    -- Any other item is seen and replaced exactly as before.
    · simp only [hk, ne_eq, not_false_eq_true, and_true, if_false]
      split
      · exact ih
      · rw [List.filter_cons_of_pos (by simpa [hkey] using hk),
          List.filter_cons_of_pos (by simpa [hkey] using hk), ih]

/-- An item that is not hidden takes the place of an inherited one of its key. -/
theorem substituted_add (h : l.items.Indexed) (hseen : item.key ∉ l.items.removed)
    (inherited : List Item) :
    (l.add item).substituted inherited = (l.substituted inherited).map (·.replacedBy item) := by
  induction inherited with
  | nil => rfl
  | cons i inherited ih =>
    have hkey := key_getD_find? h i
    simp only [substituted_cons, add, h.find?_insert, ItemStore.mem_removed_insert_iff] at ih ⊢
    -- The inherited item of this key is replaced by the new one, which is now stored.
    by_cases hk : i.key = item.key
    · simp only [hk, ne_eq, not_true_eq_false, and_false, if_false, if_true, Option.getD_some,
        hseen, List.map_cons]
      rw [ih, Item.replacedBy_of_key_eq (by simpa [hk] using hkey)]
    · simp only [hk, ne_eq, not_false_eq_true, and_true, if_false]
      split
      · exact ih
      · rw [List.map_cons, Item.replacedBy_of_key_ne (by rwa [hkey]), ih]

/-- Adding an item changes nothing of inherited items if none has its key. -/
theorem substituted_add_of_forall_ne (h : l.items.Indexed)
    (hne : ∀ i ∈ inherited, i.key ≠ item.key) :
    (l.add item).substituted inherited = l.substituted inherited := by
  have hkeys {l : Level} (hl : l.items.Indexed) : ∀ j ∈ l.substituted inherited,
      j.key ≠ item.key := by
    intro j hj
    obtain ⟨i, hi, -, rfl⟩ := mem_substituted_iff.1 hj
    rw [key_getD_find? hl]
    exact hne i hi
  have hfilter := filter_substituted_add h item inherited
  rwa [List.filter_eq_self.2 fun j hj => decide_eq_true (hkeys (h.insert item) j hj),
    List.filter_eq_self.2 fun j hj => decide_eq_true (hkeys h j hj)] at hfilter

/-- Whether an entry is added to what is inherited depends on its key alone. -/
def isAdded (l : Level) (type : String) (inherited : List Item) (k : ItemKey) : Bool :=
  k.type = type && !((l.substituted inherited).any fun j => j.key = k)

/-- What a level adds are the entries whose keys say so. -/
theorem added_eq (l : Level) (type : String) (inherited : List Item) :
    l.added type inherited = l.items.entries.filter fun i => l.isAdded type inherited i.key :=
  rfl

/-- Whether an entry counts as added does not change when one of another key comes. -/
theorem isAdded_add (h : l.items.Indexed) (hk : k ≠ item.key) :
    (l.add item).isAdded type inherited k = l.isAdded type inherited k := by
  have hany (items : List Item) : items.any (fun j => j.key = k) =
      (items.filter fun j => j.key ≠ item.key).any fun j => j.key = k := by
    rw [List.any_filter]
    congr 1
    funext j
    by_cases hj : j.key = k <;> simp [hj, hk]
  unfold isAdded
  rw [hany, filter_substituted_add h, ← hany]

/-- Adding an item changes nothing of the added items with other keys. -/
theorem filter_added_add (h : l.items.Indexed) (item : Item) (inherited : List Item) :
    ((l.add item).added type inherited).filter (fun i => i.key ≠ item.key) =
      (l.added type inherited).filter fun i => i.key ≠ item.key := by
  -- The entries of the level agree outside the key, replaced in place or put at the end.
  have hentries : ((l.add item).items.entries).filter (fun i => i.key ≠ item.key) =
      l.items.entries.filter fun i => i.key ≠ item.key := by
    cases hfind : l.items.find? item.key with
    | none =>
      rw [add, h.entries_insert_of_new hfind, List.filter_append]
      simp
    | some old =>
      rw [add, h.entries_insert_of_known (hfind ▸ rfl), Item.filter_map_replacedBy]
  rw [added_eq, added_eq, List.filter_comm, hentries, List.filter_comm, List.filter_filter,
    List.filter_filter]
  refine List.filter_congr fun i _ => ?_
  by_cases hk : i.key = item.key
  · simp [hk]
  · rw [isAdded_add h hk]

/-- An item that replaces another one leaves what is added to the inherited items as it is. -/
theorem isAdded_add_of_not_hidden (h : l.items.Indexed) (hseen : item.key ∉ l.items.removed) :
    (l.add item).isAdded type inherited k = l.isAdded type inherited k := by
  unfold isAdded
  rw [substituted_add h hseen, List.any_map]
  simp [Function.comp_def]

/-- An item takes the place of the entry of its key. -/
theorem added_add_of_known (h : l.items.Indexed) (hknown : (l.items.find? item.key).isSome) :
    (l.add item).added type inherited = (l.added type inherited).map (·.replacedBy item) := by
  obtain ⟨old, hold⟩ := Option.isSome_iff_exists.1 hknown
  rw [added_eq, added_eq, add, h.entries_insert_of_known hknown, List.filter_map]
  congr 1
  refine List.filter_congr fun i _ => ?_
  rw [Function.comp_apply, Item.key_replacedBy]
  exact isAdded_add_of_not_hidden h (h.not_mem_removed_of_find? hold)

/-- An item whose key has no entry comes last, unless it has its place among those inherited. -/
theorem added_add_of_new (h : l.items.Indexed) (hnew : l.items.find? item.key = none) :
    (l.add item).added type inherited =
      l.added type inherited ++
        if (l.add item).isAdded type inherited item.key then [item] else [] := by
  have hentries : l.items.entries.filter (fun i => (l.add item).isAdded type inherited i.key) =
      l.items.entries.filter fun i => l.isAdded type inherited i.key := by
    refine List.filter_congr fun i hi => isAdded_add h ?_
    exact h.find?_eq_none_iff.1 hnew i hi
  have hinsert : (l.add item).items.entries = l.items.entries ++ [item] :=
    h.entries_insert_of_new hnew
  rw [added_eq, added_eq l, ← hentries, hinsert, List.filter_append, List.filter_singleton,
    Bool.cond_eq_ite]

end Level

/-! ## Levels inside one another -/

namespace Environment

variable {env outer : Environment} {type identity : String} {i item : Item}

/-- The items of a type are those that the innermost level lets through and those that it adds. -/
theorem items_eq (env : Environment) (type : String) :
    env.items type = env.inner.substituted (itemsIn type env.outer) ++
      env.inner.added type (itemsIn type env.outer) :=
  rfl

/-- After an item is added, the innermost level has it and the others are as they were. -/
theorem items_addItem_eq (env : Environment) (item : Item) (type : String) :
    (env.addItem item).items type =
      (env.inner.add item).substituted (itemsIn type env.outer) ++
        (env.inner.add item).added type (itemsIn type env.outer) :=
  rfl

/-- The items of a type have that type. -/
theorem type_of_mem_items (h : ∀ l ∈ env.levels, l.items.Indexed) (hi : i ∈ env.items type) :
    i.type = type :=
  ((mem_itemsIn_iff h).1 hi).1

/-- Among items of one type those of one key are those of one identity. -/
theorem key_eq_iff (h : ∀ l ∈ env.levels, l.items.Indexed) (hi : i ∈ env.items item.type) :
    i.key = item.key ↔ i.identity = item.identity := by
  simp [Item.key, type_of_mem_items h hi]

/-- After an item is removed, all others are seen in the same order. -/
theorem items_removeItem (h : ∀ l ∈ env.levels, l.items.Indexed) (type identity other : String) :
    (env.removeItem type identity).items other =
      (env.items other).filter fun i => i.key ≠ ⟨type, identity⟩ := by
  have hinner := h env.inner List.mem_cons_self
  rw [items_eq env, List.filter_append, ← Level.substituted_remove hinner,
    ← Level.added_remove hinner]
  rfl

/-- Adding an item leaves all items of other keys where they are. -/
theorem filter_items_addItem (h : ∀ l ∈ env.levels, l.items.Indexed) (item : Item)
    (type : String) :
    ((env.addItem item).items type).filter (fun i => i.key ≠ item.key) =
      (env.items type).filter fun i => i.key ≠ item.key := by
  have hinner := h env.inner List.mem_cons_self
  rw [items_addItem_eq, items_eq, List.filter_append, List.filter_append,
    Level.filter_substituted_add hinner, Level.filter_added_add hinner]

/-- Adding an item keeps every index right. -/
theorem indexed_addItem (h : ∀ l ∈ env.levels, l.items.Indexed) (item : Item) :
    ∀ l ∈ (env.addItem item).levels, l.items.Indexed := by
  rw [levels, List.forall_mem_cons] at h ⊢
  exact ⟨h.1.insert item, h.2⟩

/-- Items of other types stay as they are when an item is added. -/
theorem items_addItem_of_ne (h : ∀ l ∈ env.levels, l.items.Indexed) (hne : type ≠ item.type) :
    (env.addItem item).items type = env.items type := by
  have hkeys {env : Environment} (h : ∀ l ∈ env.levels, l.items.Indexed) :
      (env.items type).filter (fun i => i.key ≠ item.key) = env.items type := by
    refine List.filter_eq_self.2 fun i hi => decide_eq_true fun hkey => hne ?_
    rw [← type_of_mem_items h hi]
    exact congrArg ItemKey.type hkey
  rw [← hkeys (indexed_addItem h item), filter_items_addItem h, hkeys h]

/-- An added item is seen. -/
theorem mem_items_addItem (h : ∀ l ∈ env.levels, l.items.Indexed) (item : Item) :
    item ∈ (env.addItem item).items item.type := by
  have hinner := h env.inner List.mem_cons_self
  refine (mem_itemsIn_iff (indexed_addItem h item)).2 ⟨rfl, ?_⟩
  rw [levels, itemIn_cons]
  simp [addItem, hinner.find?_insert]

/-- An item that is seen already is replaced where it stands. -/
theorem items_addItem_of_seen (h : ∀ l ∈ env.levels, l.items.Indexed)
    (hi : i ∈ env.items item.type) (hkey : i.key = item.key) :
    (env.addItem item).items item.type = (env.items item.type).map (·.replacedBy item) := by
  have hinner := h env.inner List.mem_cons_self
  have hlookup := ((mem_itemsIn_iff h).1 hi).2
  rw [levels, itemIn_cons, hkey] at hlookup
  have hseen : item.key ∉ env.inner.items.removed := by
    intro hremoved
    rw [if_pos hremoved, Option.or_none] at hlookup
    exact hinner.not_mem_removed_of_find? hlookup hremoved
  rw [items_addItem_eq, items_eq, List.map_append, Level.substituted_add hinner hseen]
  congr 1
  cases hfind : env.inner.items.find? item.key with
  | some own => exact Level.added_add_of_known hinner (hfind ▸ rfl)
  | none =>
    -- The item is inherited, so its place is not among the entries.
    have hne : ∀ j ∈ env.inner.added item.type (itemsIn item.type env.outer),
        j.key ≠ item.key := by
      intro j hj
      exact hinner.find?_eq_none_iff.1 hfind j (Level.mem_added_iff.1 hj).1
    have hplace : i ∈ env.inner.substituted (itemsIn item.type env.outer) := by
      rw [items_eq, List.mem_append] at hi
      exact hi.resolve_right fun hi => hne i hi hkey
    have hadded : env.inner.isAdded item.type (itemsIn item.type env.outer) item.key = false := by
      rw [Level.isAdded, List.any_eq_true.2 ⟨i, hplace, decide_eq_true hkey⟩, Bool.not_true,
        Bool.and_false]
    rw [Level.added_add_of_new hinner hfind, Item.map_replacedBy_of_forall_ne hne,
      Level.isAdded_add_of_not_hidden hinner hseen, hadded, if_neg Bool.false_ne_true,
      List.append_nil]

/-- An item that neither the innermost level nor the levels around it show comes last. -/
theorem items_addItem_of_new (h : ∀ l ∈ env.levels, l.items.Indexed)
    (hnew : ∀ i ∈ env.items item.type, i.key ≠ item.key)
    (houter : ∀ i ∈ itemsIn item.type env.outer, i.key ≠ item.key) :
    (env.addItem item).items item.type = env.items item.type ++ [item] := by
  have hinner := h env.inner List.mem_cons_self
  have hfind : env.inner.items.find? item.key = none := by
    cases hfind : env.inner.items.find? item.key with
    | none => rfl
    | some own =>
      -- An entry of the innermost level is seen.
      obtain ⟨-, hkey⟩ := hinner.find?_eq_some_iff.1 hfind
      have htype : own.type = item.type := congrArg ItemKey.type hkey
      have hlookup : itemIn own.key env.levels = some own := by
        rw [levels, itemIn_cons, hkey, hfind, Option.some_or]
      exact absurd hkey (hnew own ((mem_itemsIn_iff h).2 ⟨htype, hlookup⟩))
  have hsubstituted := Level.substituted_add_of_forall_ne hinner houter
  have hadded : (env.inner.add item).isAdded item.type (itemsIn item.type env.outer) item.key =
      true := by
    rw [Level.isAdded, hsubstituted, Bool.and_eq_true, Bool.not_eq_true', List.any_eq_false]
    refine ⟨decide_eq_true rfl, fun i hi => ?_⟩
    rw [decide_eq_true_eq]
    exact hnew i (List.mem_append_left _ hi)
  rw [items_addItem_eq, hsubstituted, Level.added_add_of_new hinner hfind, hadded, if_pos rfl,
    ← List.append_assoc]
  rfl

/-- The environment around sees what the outer levels show. -/
theorem items_of_parent? (h : env.parent? = some outer) (type : String) :
    outer.items type = itemsIn type env.outer := by
  rw [items, ← (List.cons.inj (levels_of_parent? h)).2]

/-- What the outer levels show is shown by the environment around. -/
theorem exists_parent?_of_mem (hi : i ∈ itemsIn type env.outer) :
    ∃ outer, env.parent? = some outer ∧ i ∈ outer.items type := by
  cases hparent : env.parent? with
  | none =>
    have hnil : env.outer = [] := by
      unfold parent? at hparent
      split at hparent
      · assumption
      · cases hparent
    rw [hnil] at hi
    cases hi
  | some outer => exact ⟨outer, rfl, by rwa [items_of_parent? hparent]⟩

/-- What is seen of the outer levels stands in their order. -/
theorem keys_items_of_parent? (h : ∀ l ∈ env.levels, l.items.Indexed)
    (houter : env.parent? = some outer) (type : String) :
    ((env.items type).map Item.key).filter (fun k => k ∈ (outer.items type).map Item.key) =
      ((outer.items type).map Item.key).filter fun k => k ∈ (env.items type).map Item.key := by
  have hinner := h env.inner List.mem_cons_self
  -- The listing is what is substituted for the outer items, then what the level adds. Only the
  -- first part can share a key with an outer item: such an item of the second part would have been
  -- substituted.
  have hlist : env.items type =
      env.inner.substituted (outer.items type) ++ env.inner.added type (outer.items type) := by
    rw [items_eq, items_of_parent? houter]
  have hsubstituted : (env.inner.substituted (outer.items type)).map Item.key =
      ((outer.items type).map Item.key).filter fun k => k ∉ env.inner.items.removed :=
    Level.keys_substituted hinner
  have hstored {k : ItemKey} (hk : k ∈ (env.inner.added type (outer.items type)).map Item.key) :
      k ∉ env.inner.items.removed := by
    obtain ⟨i, hi, rfl⟩ := List.mem_map.1 hk
    exact hinner.not_mem_removed (Level.mem_added_iff.1 hi).1
  have hseen {k : ItemKey} (hk : k ∈ (outer.items type).map Item.key) :
      k ∈ (env.items type).map Item.key ↔ k ∉ env.inner.items.removed := by
    rw [hlist, List.map_append, List.mem_append, hsubstituted, List.mem_filter,
      decide_eq_true_eq]
    exact ⟨fun h => h.elim (·.2) hstored, fun h => .inl ⟨hk, h⟩⟩
  have hadded : ((env.inner.added type (outer.items type)).map Item.key).filter
      (fun k => k ∈ (outer.items type).map Item.key) = [] := by
    refine List.filter_eq_nil_iff.2 fun k hk houter => ?_
    have hk' : k ∈ (env.inner.substituted (outer.items type)).map Item.key := by
      rw [hsubstituted, List.mem_filter]
      exact ⟨of_decide_eq_true houter, decide_eq_true (hstored hk)⟩
    obtain ⟨i, hi, rfl⟩ := List.mem_map.1 hk
    obtain ⟨j, hj, hkey⟩ := List.mem_map.1 hk'
    exact (Level.mem_added_iff.1 hi).2.2 j hj hkey
  rw [List.filter_congr fun k hk => decide_eq_decide.2 (hseen hk), hlist, List.map_append,
    List.filter_append, hadded, List.append_nil, hsubstituted, List.filter_eq_self]
  exact fun k hk => decide_eq_true (List.mem_filter.1 hk).1

/-- What removing an item does to the items that are seen. -/
structure RemovesItem (type identity : String) (before after : Environment) : Prop where
  /-- The item of the identity is left out. -/
  items : after.items type = (before.items type).filter fun i => i.identity ≠ identity
  otherTypes : ∀ other, other ≠ type → after.items other = before.items other
  parent : after.parent? = before.parent?

/-- What adding an item does to the items that are seen. -/
structure AddsItem (item : Item) (before after : Environment) : Prop where
  /-- The items of other identities are the same, in the same order. -/
  others : (after.items item.type).filter (fun i => i.identity ≠ item.identity) =
    (before.items item.type).filter fun i => i.identity ≠ item.identity
  /-- The item occurs once, and it is the only one of its identity. -/
  once : (after.items item.type).filter (fun i => i.identity = item.identity) = [item]
  /-- It takes the place of the item of its identity. -/
  inPlace : ∀ n old, (before.items item.type)[n]? = some old → old.identity = item.identity →
    after.items item.type = (before.items item.type).set n item
  /-- It comes last if its identity was seen neither at this level nor around it. -/
  last : (∀ i ∈ before.items item.type, i.identity ≠ item.identity) →
    (∀ outer, before.parent? = some outer →
      ∀ i ∈ outer.items item.type, i.identity ≠ item.identity) →
      after.items item.type = before.items item.type ++ [item]
  /-- What is seen of the environment around stands in the order that it has there. -/
  outerOrder : ∀ outer, before.parent? = some outer →
    ((after.items item.type).map Item.key).filter
        (fun k => k ∈ (outer.items item.type).map Item.key) =
      ((outer.items item.type).map Item.key).filter
        fun k => k ∈ (after.items item.type).map Item.key
  otherTypes : ∀ other, other ≠ item.type → after.items other = before.items other
  parent : after.parent? = before.parent?

/-- Among items of one type, another key is another identity. -/
theorem filter_key_ne (h : ∀ l ∈ env.levels, l.items.Indexed) (item : Item) :
    (env.items item.type).filter (fun i => i.key ≠ item.key) =
      (env.items item.type).filter fun i => i.identity ≠ item.identity :=
  List.filter_congr fun _ hi => decide_eq_decide.2 (not_congr (key_eq_iff h hi))

/-- Removing an item does what removing does: it is gone, and all else is as before. -/
theorem removesItem_removeItem (h : ∀ l ∈ env.levels, l.items.Indexed) (type identity : String) :
    RemovesItem type identity env (env.removeItem type identity) where
  items := by
    rw [items_removeItem h]
    exact filter_key_ne h ⟨type, identity, []⟩
  otherTypes other hother := by
    rw [items_removeItem h, List.filter_eq_self]
    intro i hi
    refine decide_eq_true fun hkey => hother ?_
    exact (type_of_mem_items h hi).symm.trans (congrArg ItemKey.type hkey)
  parent := rfl

/-- Adding an item does what adding does: it is seen once, and all else is as before. -/
theorem addsItem_addItem (h : ∀ l ∈ env.levels, l.items.Indexed) (item : Item) :
    AddsItem item env (env.addItem item) where
  -- One field for each thing the claim of a write says, each from the lemma about it.
  others := by
    rw [← filter_key_ne h, ← filter_key_ne (indexed_addItem h item)]
    exact filter_items_addItem h item item.type
  once := by
    have hadded := indexed_addItem h item
    rw [← Item.filter_key_eq (nodup_keys_itemsIn hadded) (mem_items_addItem h item)]
    exact List.filter_congr fun i hi => decide_eq_decide.2 (key_eq_iff hadded hi).symm
  inPlace n old hold hidentity := by
    have hmem := List.mem_of_getElem? hold
    have hkey := (key_eq_iff h hmem).2 hidentity
    rw [items_addItem_of_seen h hmem hkey]
    exact Item.map_replacedBy_eq_set (nodup_keys_itemsIn h) hold hkey
  last hnew houter := by
    refine items_addItem_of_new h (fun i hi => mt (key_eq_iff h hi).1 (hnew i hi)) ?_
    -- The items in front are those of the outer scope, none of which has this identity.
    intro i hi hkey
    obtain ⟨outer, hparent, hi⟩ := exists_parent?_of_mem hi
    exact houter outer hparent i hi (congrArg ItemKey.identity hkey)
  outerOrder outer houter := keys_items_of_parent? (indexed_addItem h item) houter item.type
  otherTypes other hother := items_addItem_of_ne h hother
  parent := rfl

/-- Removing an item takes it out of the items of its type. Adding an item changes no other one: it
replaces the item of its identity where that stands, or comes last if its identity was not seen.
Items of other types and the environment around stay as they are. -/
theorem items_after_write (h : env.Reachable) :
    (∀ type identity, RemovesItem type identity env (env.removeItem type identity)) ∧
      ∀ item, AddsItem item env (env.addItem item) :=
  ⟨removesItem_removeItem h.indexed, addsItem_addItem h.indexed⟩

/-- The environment of the sources comes about from an empty one. -/
theorem reachable_editedSources : editedSources.Reachable :=
  .addItem _ (.removeItem _ _ (.child (.addItem _ (.removeItem _ _
    (.child (.addItem _ (.addItem _ .empty)))))))

/-- In the edited sources the first one is replaced where it stands, a new one comes last, and the
one that the innermost level hides is seen again. -/
theorem items_after_write_edited_sources :
    editedSources.Reachable ∧
      (editedSources.removeItem "Compile" "a.cs").items "Compile" = [⟨"Compile", "c.cs", []⟩] ∧
        ((editedSources.addItem ⟨"Compile", "a.cs", []⟩).items "Compile").map Item.identity =
          ["a.cs", "c.cs"] ∧
          ((editedSources.addItem ⟨"Compile", "d.cs", []⟩).items "Compile").map Item.identity =
            ["a.cs", "c.cs", "d.cs"] ∧
            ((editedSources.addItem ⟨"Compile", "b.cs", []⟩).items "Compile").filter
              (fun i => i.identity = "b.cs") = [⟨"Compile", "b.cs", []⟩] := by
  obtain ⟨hremoves, hadds⟩ := items_after_write reachable_editedSources
  refine ⟨reachable_editedSources, ?_, ?_, ?_, ?_⟩
  · rw [(hremoves "Compile" "a.cs").items]
    decide
  · rw [(hadds ⟨"Compile", "a.cs", []⟩).inPlace 0 ⟨"Compile", "a.cs", [("Link", "a")]⟩ (by decide)
      rfl]
    decide
  · rw [(hadds ⟨"Compile", "d.cs", []⟩).last (by decide) ?_]
    · decide
    · rintro outer ⟨⟩
      decide
  · exact (hadds ⟨"Compile", "b.cs", []⟩).once

end Environment

end BuildEngine
