import BuildEngine.Environment
import Mathlib.Data.List.Nodup

/-!
# Looking items up and listing them

An item is looked up from the innermost level outwards, at each level through an index. Items are
listed from the outermost level inwards, each level putting its items in the places of those that it
replaces and leaving out those that it removed. Both ways see the same items
(`Environment.items_agree_with_lookup`), because at every level the index tells where the one entry
of a key stands and no key is both stored and removed (`ItemStore.Indexed`).
-/

namespace BuildEngine

/-! ## One level -/

namespace ItemStore

variable {s : ItemStore} {i item : Item} {k : ItemKey} {n : Nat}

/-- The index tells where the entry of a key stands, and no key is both stored and removed. -/
structure Indexed (s : ItemStore) : Prop where
  index?_eq_some_iff : ∀ {k n}, s.index? k = some n ↔ ∃ i, s.entries[n]? = some i ∧ i.key = k
  not_mem_removed : ∀ {i}, i ∈ s.entries → i.key ∉ s.removed

/-- The index of a level without items is empty, as it should be. -/
theorem indexed_empty : empty.Indexed := by
  refine ⟨?_, nofun⟩
  intro k n
  simp [empty, index?]

/-- No two entries have the same key. -/
theorem Indexed.nodup_keys (h : s.Indexed) : (s.entries.map Item.key).Nodup := by
  rw [List.nodup_iff_getElem?_ne_getElem?]
  intro m n hmn hn heq
  rw [List.length_map] at hn
  have hm : m < s.entries.length := Nat.lt_trans hmn hn
  simp only [List.getElem?_map, List.getElem?_eq_getElem hm, List.getElem?_eq_getElem hn,
    Option.map_some, Option.some.injEq] at heq
  -- Both places are the one that the index has for the key.
  have hm' := h.index?_eq_some_iff.2 ⟨_, List.getElem?_eq_getElem hm, heq⟩
  have hn' := h.index?_eq_some_iff.2 ⟨_, List.getElem?_eq_getElem hn, rfl⟩
  rw [hm'] at hn'
  exact absurd (Option.some.inj hn') (Nat.ne_of_lt hmn)

/-- The item of a key is the entry that has it. -/
theorem Indexed.find?_eq_some_iff (h : s.Indexed) :
    s.find? k = some i ↔ i ∈ s.entries ∧ i.key = k := by
  rw [find?, Option.bind_eq_some_iff]
  constructor
  · rintro ⟨n, hn, hi⟩
    obtain ⟨j, hj, hk⟩ := h.index?_eq_some_iff.1 hn
    rw [hi] at hj
    cases hj
    exact ⟨List.mem_of_getElem? hi, hk⟩
  · rintro ⟨hi, hk⟩
    obtain ⟨n, hn⟩ := List.mem_iff_getElem?.1 hi
    exact ⟨n, h.index?_eq_some_iff.2 ⟨i, hn, hk⟩, hn⟩

/-- A key is not found exactly if no entry has it. -/
theorem Indexed.find?_eq_none_iff (h : s.Indexed) :
    s.find? k = none ↔ ∀ i ∈ s.entries, i.key ≠ k := by
  rw [Option.eq_none_iff_forall_ne_some]
  constructor
  · intro hnone i hi hk
    exact hnone i (h.find?_eq_some_iff.2 ⟨hi, hk⟩)
  · intro hne i hi
    obtain ⟨hmem, hk⟩ := h.find?_eq_some_iff.1 hi
    exact hne i hmem hk

/-- Where each key stands once, it is looked up as the number of its entry. -/
theorem lookup_map_zipIdx {entries : List Item} (h : (entries.map Item.key).Nodup) {m : Nat} :
    ((entries.zipIdx m).map fun (i, n) => (i.key, n)).lookup k = some n ↔
      ∃ i, m ≤ n ∧ entries[n - m]? = some i ∧ i.key = k := by
  induction entries generalizing m with
  | nil => simp
  | cons j entries ih =>
    rw [List.map_cons, List.nodup_cons] at h
    rw [List.zipIdx_cons, List.map_cons, List.lookup_cons]
    by_cases hk : k = j.key
    · -- The key is that of the first entry, so none of the others has it.
      subst hk
      simp only [BEq.rfl, Option.some.injEq]
      constructor
      · rintro rfl
        exact ⟨j, Nat.le_refl _, by simp, rfl⟩
      · rintro ⟨i, hle, hi, hkey⟩
        by_contra hne
        obtain ⟨d, hd⟩ : ∃ d, n - m = d + 1 := ⟨n - m - 1, by omega⟩
        rw [hd, List.getElem?_cons_succ] at hi
        exact h.1 (hkey ▸ List.mem_map_of_mem (List.mem_of_getElem? hi))
    -- Another key is found among the other entries, one place further on.
    · rw [beq_false_of_ne hk, ih h.2]
      constructor
      · rintro ⟨i, hle, hi, hkey⟩
        refine ⟨i, by omega, ?_, hkey⟩
        rwa [show n - m = n - (m + 1) + 1 by omega, List.getElem?_cons_succ]
      · rintro ⟨i, hle, hi, hkey⟩
        have hne : n ≠ m := by
          rintro rfl
          rw [Nat.sub_self, List.getElem?_cons_zero] at hi
          cases hi
          exact hk hkey.symm
        rw [show n - m = n - (m + 1) + 1 by omega, List.getElem?_cons_succ] at hi
        exact ⟨i, by omega, hi, hkey⟩

/-- The index of entries with different keys tells where they stand. -/
theorem lookup_indexOf {entries : List Item} (h : (entries.map Item.key).Nodup) :
    (indexOf entries).lookup k = some n ↔ ∃ i, entries[n]? = some i ∧ i.key = k := by
  rw [indexOf, lookup_map_zipIdx h]
  simp

/-- What stands at a place of a list with one more element. -/
theorem getElem?_concat_eq_some_iff {entries : List Item} :
    (entries ++ [item])[n]? = some i ↔ entries[n]? = some i ∨ n = entries.length ∧ item = i := by
  rw [List.getElem?_append]
  split
  · next hlt => simp [Nat.ne_of_lt hlt]
  · next hle =>
    have hlast : n - entries.length = 0 ↔ n = entries.length := by omega
    simp [List.getElem?_eq_none (Nat.le_of_not_lt hle), List.getElem?_singleton, hlast]

/-- An item takes the place of the entry with its key, whose place stays the same, or comes last. -/
theorem Indexed.insert (h : s.Indexed) (item : Item) : (s.insert item).Indexed := by
  have hremoved {i : Item} (hi : i ∈ s.entries ∨ i = item) :
      i.key ∉ s.removed.filter fun k => k ≠ item.key := by
    rw [List.mem_filter]
    rintro ⟨hmem, hne⟩
    rcases hi with hi | rfl
    · exact h.not_mem_removed hi hmem
    · simp at hne
  unfold ItemStore.insert
  -- A known item is replaced in place, a new one put at the end. Its key is no longer removed.
  cases hindex : s.index? item.key with
  | some n =>
    obtain ⟨old, hold, hkey⟩ := h.index?_eq_some_iff.1 hindex
    refine ⟨?_, fun hi => hremoved (List.mem_or_eq_of_mem_set hi)⟩
    intro k m
    refine h.index?_eq_some_iff.trans ?_
    by_cases hm : n = m
    · subst hm
      have hlt : n < s.entries.length := (List.getElem?_eq_some_iff.1 hold).1
      simp [hold, hkey, List.getElem?_set_self hlt]
    · rw [List.getElem?_set_ne hm]
  | none =>
    refine ⟨?_, fun hi => hremoved ?_⟩
    · intro k m
      show ((item.key, s.entries.length) :: s.index).lookup k = some m ↔ _
      simp only [getElem?_concat_eq_some_iff, List.lookup_cons]
      by_cases hk : k = item.key
      · -- The index knew of no entry with this key, so only the new one has it.
        subst hk
        have hfresh {i : Item} (hi : s.entries[m]? = some i) : i.key ≠ item.key := by
          intro hkey
          rw [h.index?_eq_some_iff.2 ⟨i, hi, hkey⟩] at hindex
          cases hindex
        simp only [BEq.rfl, Option.some.injEq]
        constructor
        · rintro rfl
          exact ⟨item, .inr ⟨rfl, rfl⟩, rfl⟩
        · rintro ⟨i, hi | ⟨rfl, -⟩, hkey⟩
          · exact absurd hkey (hfresh hi)
          · rfl
      · rw [beq_false_of_ne hk]
        refine h.index?_eq_some_iff.trans (exists_congr fun i => and_congr_left fun hkey => ?_)
        have hne : item ≠ i := by
          rintro rfl
          exact hk hkey.symm
        simp [hne]
    · rcases List.mem_append.1 hi with hi | hi
      · exact .inl hi
      · exact .inr (List.mem_singleton.1 hi)

/-- The entries that are left when a key is removed are indexed anew. -/
theorem Indexed.erase (h : s.Indexed) (k : ItemKey) : (s.erase k).Indexed := by
  have hremoved {i : Item} (hi : i ∈ s.entries) (hne : i.key ≠ k) :
      i.key ∉ if k ∈ s.removed then s.removed else k :: s.removed := by
    have := h.not_mem_removed hi
    split
    · exact this
    · simp [hne, this]
  unfold ItemStore.erase
  -- A stored item leaves the list, and the index is made anew. An unknown one changes nothing but
  -- the removed keys.
  cases hindex : s.index? k with
  | some n =>
    refine ⟨?_, ?_⟩
    · intro k' m
      exact lookup_indexOf (h.nodup_keys.sublist (List.filter_sublist.map _))
    · intro i hi
      obtain ⟨hmem, hne⟩ := List.mem_filter.1 hi
      exact hremoved hmem (of_decide_eq_true hne)
  | none =>
    refine ⟨h.index?_eq_some_iff, ?_⟩
    intro i hi
    refine hremoved hi ?_
    rintro rfl
    obtain ⟨n, hn⟩ := List.mem_iff_getElem?.1 hi
    rw [h.index?_eq_some_iff.2 ⟨i, hn, rfl⟩] at hindex
    cases hindex

end ItemStore

namespace Level

variable {l : Level} {i : Item} {inherited : List Item}

/-- What is seen of inherited items: those that are not removed, each behind the local item of its
key if there is one. -/
theorem mem_substituted_iff :
    i ∈ l.substituted inherited ↔
      ∃ j ∈ inherited, j.key ∉ l.items.removed ∧ (l.items.find? j.key).getD j = i := by
  simp only [substituted, List.mem_filterMap]
  refine exists_congr fun j => and_congr_right fun _ => ?_
  split
  · next h => simp [h]
  · next h => simp [h]

/-- An item keeps its key when it is replaced. -/
theorem key_getD_find? (h : l.items.Indexed) (i : Item) :
    ((l.items.find? i.key).getD i).key = i.key := by
  cases hfind : l.items.find? i.key with
  | none => rfl
  | some j => exact (h.find?_eq_some_iff.1 hfind).2

/-- Inherited items that are seen keep their keys and their order. -/
theorem keys_substituted (h : l.items.Indexed) :
    (l.substituted inherited).map Item.key =
      (inherited.map Item.key).filter fun k => k ∉ l.items.removed := by
  induction inherited with
  | nil => rfl
  | cons i inherited ih =>
    by_cases hi : i.key ∈ l.items.removed
    · simpa [substituted, hi] using ih
    · simpa [substituted, hi, key_getD_find? h] using ih

/-- What a level adds: its entries of the type whose keys are not seen among the inherited. -/
theorem mem_added_iff {type : String} :
    i ∈ l.added type inherited ↔
      i ∈ l.items.entries ∧ i.type = type ∧ ∀ j ∈ l.substituted inherited, j.key ≠ i.key := by
  simp [added]

end Level

/-! ## Levels inside one another -/

namespace Environment

variable {env outer : Environment} {ls : List Level} {type : String} {i : Item} {k : ItemKey}

/-- The item that is seen at a level: its own, or else the one outside that it does not hide. -/
theorem itemIn_cons (k : ItemKey) (l : Level) (ls : List Level) :
    itemIn k (l :: ls) =
      (l.items.find? k).or (if k ∈ l.items.removed then none else itemIn k ls) := by
  rw [itemIn]
  cases l.items.find? k <;> rfl

/-- An item is listed exactly if looking its key up finds it. -/
theorem mem_itemsIn_iff (h : ∀ l ∈ ls, l.items.Indexed) :
    i ∈ itemsIn type ls ↔ i.type = type ∧ itemIn i.key ls = some i := by
  induction ls generalizing i with
  | nil => simp [itemsIn, itemIn]
  | cons l ls ih =>
    rw [List.forall_mem_cons] at h
    rw [itemsIn, List.mem_append, Level.mem_added_iff, itemIn_cons]
    cases hfind : l.items.find? i.key with
    | some own =>
      obtain ⟨hown, hkey⟩ := h.1.find?_eq_some_iff.1 hfind
      rw [Option.some_or, Option.some.injEq]
      constructor
      · rintro (hi | ⟨hi, htype, -⟩)
        · obtain ⟨j, hj, -, rfl⟩ := Level.mem_substituted_iff.1 hi
          have hjkey := Level.key_getD_find? h.1 j
          rw [hjkey] at hfind
          refine ⟨?_, by rw [hfind]; rfl⟩
          exact (congrArg ItemKey.type hjkey).trans ((ih h.2).1 hj).1
        · rw [h.1.find?_eq_some_iff.2 ⟨hi, rfl⟩] at hfind
          exact ⟨htype, (Option.some.inj hfind).symm⟩
      · rintro ⟨htype, rfl⟩
        -- The level's own item stands in the place of an inherited one, or else is added.
        by_cases hplace : ∃ j ∈ l.substituted (itemsIn type ls), j.key = own.key
        · obtain ⟨j, hj, hjkey⟩ := hplace
          obtain ⟨inherited, -, -, rfl⟩ := Level.mem_substituted_iff.1 hj
          rw [Level.key_getD_find? h.1] at hjkey
          rw [hjkey, hfind] at hj
          exact .inl hj
        · push Not at hplace
          exact .inr ⟨hown, htype, hplace⟩
    | none =>
      have habsent := h.1.find?_eq_none_iff.1 hfind
      rw [Option.none_or]
      constructor
      · rintro (hi | ⟨hi, -, -⟩)
        · obtain ⟨j, hj, hremoved, rfl⟩ := Level.mem_substituted_iff.1 hi
          rw [Level.key_getD_find? h.1] at hfind ⊢
          rw [hfind, if_neg hremoved]
          exact (ih h.2).1 hj
        · exact absurd rfl (habsent i hi)
      · rintro ⟨htype, hseen⟩
        split at hseen
        · cases hseen
        · next hremoved =>
          refine .inl (Level.mem_substituted_iff.2 ⟨i, (ih h.2).2 ⟨htype, hseen⟩, hremoved, ?_⟩)
          rw [hfind]
          rfl

/-- No two items that are seen have the same key. -/
theorem nodup_keys_itemsIn (h : ∀ l ∈ ls, l.items.Indexed) :
    ((itemsIn type ls).map Item.key).Nodup := by
  induction ls with
  | nil => exact .nil
  -- The substituted items keep the keys of the outer ones, and none of those added has such a key.
  | cons l ls ih =>
    rw [List.forall_mem_cons] at h
    rw [itemsIn, List.map_append, List.nodup_append]
    refine ⟨?_, ?_, ?_⟩
    · rw [Level.keys_substituted h.1]
      exact (ih h.2).filter _
    · exact h.1.nodup_keys.sublist (List.filter_sublist.map _)
    · intro k hk k' hk'
      obtain ⟨i, hi, rfl⟩ := List.mem_map.1 hk
      obtain ⟨j, hj, rfl⟩ := List.mem_map.1 hk'
      exact (Level.mem_added_iff.1 hj).2.2 i hi

/-- Looking a key up finds an item of that key. -/
theorem key_of_itemIn (h : ∀ l ∈ ls, l.items.Indexed) (hi : itemIn k ls = some i) : i.key = k := by
  induction ls with
  | nil => cases hi
  | cons l ls ih =>
    rw [List.forall_mem_cons] at h
    rw [itemIn_cons, Option.or_eq_some_iff] at hi
    rcases hi with hfind | ⟨-, hseen⟩
    · exact (h.1.find?_eq_some_iff.1 hfind).2
    · split at hseen
      · cases hseen
      · exact ih h.2 hseen

/-- The environments that come about from an empty one: writing to the innermost level, opening a
level inside, and going on with the environment around. -/
inductive Reachable : Environment → Prop
  | empty : Reachable .empty
  | child {env : Environment} : Reachable env → Reachable env.child
  | parent {env outer : Environment} : Reachable env → env.parent? = some outer → Reachable outer
  | addItem {env : Environment} (item : Item) : Reachable env → Reachable (env.addItem item)
  | removeItem {env : Environment} (type identity : String) :
    Reachable env → Reachable (env.removeItem type identity)
  | setProperty {env : Environment} (name value : String) :
    Reachable env → Reachable (env.setProperty name value)
  | setOutput {env : Environment} (name value : String) :
    Reachable env → Reachable (env.setOutput name value)

/-- The levels of an environment are the innermost one and those of the environment around it. -/
theorem levels_of_parent? (h : env.parent? = some outer) :
    env.levels = env.inner :: outer.levels := by
  unfold parent? at h
  split at h
  · cases h
  · next hls =>
    cases h
    rw [levels, levels, hls]

/-- Every level of an environment keeps its index right. -/
theorem Reachable.indexed (h : env.Reachable) : ∀ l ∈ env.levels, l.items.Indexed := by
  -- On how the chain was reached: a write changes the store of the inner level only, by an
  -- operation that keeps it indexed.
  induction h with
  | empty =>
    rintro l (_ | ⟨_, ⟨⟩⟩)
    exact ItemStore.indexed_empty
  | child _ ih => exact List.forall_mem_cons.2 ⟨ItemStore.indexed_empty, ih⟩
  | parent _ houter ih =>
    rw [levels_of_parent? houter, List.forall_mem_cons] at ih
    exact ih.2
  | addItem item _ ih =>
    rw [levels, List.forall_mem_cons] at ih
    exact List.forall_mem_cons.2 ⟨ih.1.insert item, ih.2⟩
  | removeItem type identity _ ih =>
    rw [levels, List.forall_mem_cons] at ih
    exact List.forall_mem_cons.2 ⟨ih.1.erase ⟨type, identity⟩, ih.2⟩
  | setProperty _ _ _ ih =>
    rw [levels, List.forall_mem_cons] at ih
    exact List.forall_mem_cons.2 ih
  | setOutput _ _ _ ih =>
    rw [levels, List.forall_mem_cons] at ih
    exact List.forall_mem_cons.2 ih

/-- The item of a type and identity is the one of that identity in the list of the type. -/
theorem item?_eq_some_iff (h : ∀ l ∈ env.levels, l.items.Indexed) {identity : String} :
    env.item? type identity = some i ↔ i ∈ env.items type ∧ i.identity = identity := by
  rw [items, mem_itemsIn_iff h, item?]
  constructor
  · intro hi
    have hkey := key_of_itemIn h hi
    refine ⟨⟨congrArg ItemKey.type hkey, ?_⟩, congrArg ItemKey.identity hkey⟩
    rw [hkey]
    exact hi
  · rintro ⟨⟨rfl, hi⟩, rfl⟩
    exact hi

/-- Listing the items of a type yields items of that type, one for each identity, and looking one up
finds just the one that is listed. At every level the index has, for each key, the place of the one
entry of that key, and what is stored is not removed. -/
theorem items_agree_with_lookup (h : env.Reachable) (type identity : String) :
    (∀ i ∈ env.items type, i.type = type) ∧ ((env.items type).map Item.identity).Nodup ∧
      (∀ i, env.item? type identity = some i ↔ i ∈ env.items type ∧ i.identity = identity) ∧
        (env.item? type identity = none ↔ ∀ i ∈ env.items type, i.identity ≠ identity) ∧
          ∀ l ∈ env.levels,
            (∀ k n, l.items.index? k = some n ↔ ∃ i, l.items.entries[n]? = some i ∧ i.key = k) ∧
              ∀ i ∈ l.items.entries, i.key ∉ l.items.removed := by
  have hindexed := h.indexed
  have htype {i : Item} (hi : i ∈ env.items type) : i.type = type :=
    ((mem_itemsIn_iff hindexed).1 hi).1
  refine ⟨fun i => htype, ?_, fun i => item?_eq_some_iff hindexed, ?_, ?_⟩
  · -- Items of one type differ in their keys exactly if they differ in their identities.
    refine List.Nodup.map_on (fun i hi j hj heq => ?_) (nodup_keys_itemsIn hindexed).of_map
    have hi' := ((mem_itemsIn_iff hindexed).1 hi).2
    have hj' := ((mem_itemsIn_iff hindexed).1 hj).2
    have hkey : i.key = j.key := by
      rw [Item.key, Item.key, htype hi, htype hj, heq]
    rw [hkey, hj'] at hi'
    exact (Option.some.inj hi').symm
  -- Found nowhere means that no listed item has the identity.
  · rw [Option.eq_none_iff_forall_ne_some]
    constructor
    · intro hnone i hi hidentity
      exact hnone i ((item?_eq_some_iff hindexed).2 ⟨hi, hidentity⟩)
    · intro hne i hi
      obtain ⟨hmem, hidentity⟩ := (item?_eq_some_iff hindexed).1 hi
      exact hne i hmem hidentity
  · intro l hl
    exact ⟨fun k n => (hindexed l hl).index?_eq_some_iff, fun i => (hindexed l hl).not_mem_removed⟩

/-- Two sources, the first of which an inner level removes and adds again with a link; a level
inside that one removes the second and adds a third. -/
def editedSources : Environment :=
  let root := (empty.addItem ⟨"Compile", "a.cs", []⟩).addItem ⟨"Compile", "b.cs", []⟩
  let middle := (root.child.removeItem "Compile" "a.cs").addItem
    ⟨"Compile", "a.cs", [("Link", "a")]⟩
  (middle.child.removeItem "Compile" "b.cs").addItem ⟨"Compile", "c.cs", []⟩

/-- What was hidden and added again is seen in its old place, with its new metadata. -/
theorem items_agree_with_lookup_edited_sources :
    editedSources.Reachable ∧
      (editedSources.items "Compile").map Item.identity = ["a.cs", "c.cs"] ∧
        editedSources.item? "Compile" "a.cs" = some ⟨"Compile", "a.cs", [("Link", "a")]⟩ ∧
          ∀ i ∈ editedSources.items "Compile", i.identity ≠ "b.cs" := by
  have hreachable : editedSources.Reachable :=
    .addItem _ (.removeItem _ _ (.child (.addItem _ (.removeItem _ _
      (.child (.addItem _ (.addItem _ .empty)))))))
  refine ⟨hreachable, by decide, ?_, ?_⟩
  · exact ((items_agree_with_lookup hreachable "Compile" "a.cs").2.2.1 _).2 (by decide)
  · exact (items_agree_with_lookup hreachable "Compile" "b.cs").2.2.2.1.1 (by decide)

end Environment

end BuildEngine
