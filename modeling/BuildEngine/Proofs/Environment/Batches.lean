import BuildEngine.Proofs.Environment.Writing
import Mathlib.Data.List.Induction

/-!
# Items after several writes

Removing items one after the other leaves out those whose identity was removed
(`items_remove_filter`). Of the items that are added one after the other the last one of an
identity stays (`latest?`), in the place of the item of its identity if that was seen before
(`addsItems_foldl_addItem`). Nothing but the items of one type changes (`KeepsRest`).
-/

namespace BuildEngine.Environment

variable {env before middle after : Environment} {type identity : String} {i x : Item}
  {added : List Item}

/-! ## What stays -/

/-- Whether two environments differ at most in their items of one type. -/
structure KeepsRest (type : String) (before after : Environment) : Prop where
  properties : ∀ name, after.property? name = before.property? name
  outputs : ∀ name, after.output? name = before.output? name
  otherTypes : ∀ other, other ≠ type → after.items other = before.items other
  /-- The environment around is the same one. -/
  parent : after.parent? = before.parent?

/-- An environment keeps the rest of itself. -/
theorem KeepsRest.refl (type : String) (env : Environment) : KeepsRest type env env :=
  ⟨fun _ => rfl, fun _ => rfl, fun _ _ => rfl, rfl⟩

/-- What keeps the rest twice keeps it. -/
theorem KeepsRest.trans (h : KeepsRest type before middle) (h' : KeepsRest type middle after) :
    KeepsRest type before after where
  properties name := (h'.properties name).trans (h.properties name)
  outputs name := (h'.outputs name).trans (h.outputs name)
  otherTypes other hother := (h'.otherTypes other hother).trans (h.otherTypes other hother)
  parent := h'.parent.trans h.parent

/-- Removing an item touches items of its type only. -/
theorem keepsRest_removeItem (h : ∀ l ∈ env.levels, l.items.Indexed) (type identity : String) :
    KeepsRest type env (env.removeItem type identity) :=
  ⟨fun _ => rfl, fun _ => rfl, (removesItem_removeItem h type identity).otherTypes, rfl⟩

/-- Adding an item touches items of its type only. -/
theorem keepsRest_addItem (h : ∀ l ∈ env.levels, l.items.Indexed) (x : Item) :
    KeepsRest x.type env (env.addItem x) :=
  ⟨fun _ => rfl, fun _ => rfl, (addsItem_addItem h x).otherTypes, rfl⟩

/-! ## Removing items -/

/-- Environments come about by removing items one after the other. -/
theorem reachable_foldl_removeItem (h : env.Reachable) (type : String) (doomed : List Item) :
    (doomed.foldl (fun env d => env.removeItem type d.identity) env).Reachable :=
  List.foldlRecOn doomed _ h fun _ h d _ => .removeItem type d.identity h

/-- When items are removed one after the other, those of other identities are left, in order. -/
theorem items_foldl_removeItem (h : env.Reachable) (type : String) (doomed : List Item) :
    (doomed.foldl (fun env d => env.removeItem type d.identity) env).items type =
      (env.items type).filter fun i => ∀ d ∈ doomed, i.identity ≠ d.identity := by
  induction doomed generalizing env with
  | nil => exact (List.filter_eq_self.2 (by simp)).symm
  | cons d doomed ih =>
    rw [List.foldl_cons, ih (.removeItem type d.identity h),
      (removesItem_removeItem h.indexed type d.identity).items, List.filter_filter]
    refine List.filter_congr fun i _ => ?_
    rw [← Bool.decide_and]
    exact decide_eq_decide.2 (List.forall_mem_cons.trans and_comm).symm

/-- Removing items of a type touches no others. -/
theorem keepsRest_foldl_removeItem (h : env.Reachable) (type : String) (doomed : List Item) :
    KeepsRest type env (doomed.foldl (fun env d => env.removeItem type d.identity) env) := by
  induction doomed generalizing env with
  | nil => exact .refl type env
  | cons d doomed ih =>
    exact (keepsRest_removeItem h.indexed type d.identity).trans
      (ih (.removeItem type d.identity h))

/-- Removing the items whose identities are of some kind leaves the others. -/
theorem items_remove_filter (h : env.Reachable) (type : String) (p : String → Bool) :
    (((env.items type).filter fun i => p i.identity).foldl
        (fun env d => env.removeItem type d.identity) env).items type =
      (env.items type).filter fun i => !p i.identity := by
  rw [items_foldl_removeItem h]
  refine List.filter_congr fun i hi => ?_
  rw [Bool.eq_iff_iff, decide_eq_true_eq, Bool.not_eq_true', ← Bool.not_eq_true]
  constructor
  · intro hne hp
    exact hne i (List.mem_filter.2 ⟨hi, hp⟩) rfl
  · intro hp d hd heq
    exact hp (heq ▸ (List.mem_filter.1 hd).2)

/-! ## Adding items -/

/-- Environments come about by adding items one after the other. -/
theorem reachable_foldl_addItem (h : env.Reachable) (added : List Item) :
    (added.foldl addItem env).Reachable :=
  List.foldlRecOn added _ h fun _ h x _ => .addItem x h

/-- The last item of an identity. -/
def latest? (added : List Item) (identity : String) : Option Item :=
  added.reverse.find? fun i => i.identity = identity

/-- The last item of a list is the latest one of its identity, and of no other. -/
theorem latest?_concat (added : List Item) (x : Item) (identity : String) :
    latest? (added ++ [x]) identity =
      if x.identity = identity then some x else latest? added identity := by
  unfold latest?
  rw [List.reverse_concat, List.find?_cons]
  split <;> simp_all

/-- The latest item of an identity has that identity. -/
theorem identity_of_latest? (h : latest? added identity = some i) : i.identity = identity := by
  simpa using List.find?_some h

/-- What adding items of a type one after the other does to the items of the type. -/
structure AddsItems (type : String) (added : List Item) (before after : Environment) : Prop where
  /-- The last item of every identity is seen, and so are the items of other identities. -/
  mem_iff : ∀ i, i ∈ after.items type ↔
    latest? added i.identity = some i ∨ latest? added i.identity = none ∧ i ∈ before.items type
  /-- Items that were seen before stay in their order, each replaced by what was added for it. -/
  inPlace :
    (after.items type).filter (fun i => i.identity ∈ (before.items type).map Item.identity) =
      (before.items type).map fun i => (latest? added i.identity).getD i
  /-- No identity is seen twice. -/
  nodup : ((after.items type).map Item.identity).Nodup
  rest : KeepsRest type before after

/-- No two items of a type have the same identity. -/
theorem nodup_identities (h : ∀ l ∈ env.levels, l.items.Indexed) (type : String) :
    ((env.items type).map Item.identity).Nodup := by
  have hkeys : (env.items type).map Item.key =
      ((env.items type).map Item.identity).map (ItemKey.mk type) := by
    rw [List.map_map]
    refine List.map_congr_left fun i hi => ?_
    rw [← type_of_mem_items h hi]
    rfl
  have hnodup : ((env.items type).map Item.key).Nodup := nodup_keys_itemsIn h
  rw [hkeys] at hnodup
  exact List.Nodup.of_map _ hnodup

/-- To add no items changes nothing. -/
theorem addsItems_nil (h : ∀ l ∈ env.levels, l.items.Indexed) (type : String) :
    AddsItems type [] env env where
  mem_iff i := by simp [latest?]
  inPlace := by
    have hmem : ∀ i ∈ env.items type, decide (i.identity ∈ (env.items type).map Item.identity) :=
      fun i hi => decide_eq_true (List.mem_map_of_mem hi)
    rw [List.filter_eq_self.2 hmem]
    exact (List.map_id _).symm
  nodup := nodup_identities h type
  rest := .refl type env

/-- After an item is added the items of its type are that one and those of other identities. -/
theorem mem_items_addItem_iff (h : ∀ l ∈ env.levels, l.items.Indexed) (x : Item) :
    i ∈ (env.addItem x).items x.type ↔
      i = x ∨ i.identity ≠ x.identity ∧ i ∈ env.items x.type := by
  have hadds := addsItem_addItem h x
  -- The new item is the only one with its identity, and no other one is touched.
  by_cases hi : i.identity = x.identity
  · have honce : i ∈ (env.addItem x).items x.type ↔ i ∈ [x] := by
      rw [← hadds.once, List.mem_filter, decide_eq_true_eq, and_iff_left hi]
    rw [honce, List.mem_singleton]
    exact (or_iff_left fun hne => hne.1 hi).symm
  · have hothers : i ∈ (env.addItem x).items x.type ↔ i ∈ env.items x.type := by
      have h := congrArg (i ∈ ·) hadds.others
      simpa [hi] using h
    rw [hothers]
    constructor
    · exact fun h => .inr ⟨hi, h⟩
    · rintro (rfl | h)
      · exact absurd rfl hi
      · exact h.2

/-- The item that stands in the place of another has its identity. -/
theorem identity_getD_latest? (added : List Item) (i : Item) :
    ((latest? added i.identity).getD i).identity = i.identity := by
  cases h : latest? added i.identity with
  | none => rfl
  | some j => exact identity_of_latest? h

/-- What was there is there, or the latest item of its identity is there for it. -/
theorem AddsItems.mem_of_mem (h : AddsItems type added before after) (hi : i ∈ before.items type) :
    (latest? added i.identity).getD i ∈ after.items type := by
  have hmem := List.mem_map_of_mem (f := fun i => (latest? added i.identity).getD i) hi
  rw [← h.inPlace] at hmem
  exact (List.mem_filter.1 hmem).1

/-- One more item takes the place of the item of its identity, or of what was added for it. -/
theorem AddsItems.inPlace_addItem_of_seen (h : AddsItems x.type added before env)
    (hindexed : ∀ l ∈ env.levels, l.items.Indexed)
    (hseen : x.identity ∈ (before.items x.type).map Item.identity) :
    ((env.addItem x).items x.type).filter
        (fun i => i.identity ∈ (before.items x.type).map Item.identity) =
      (before.items x.type).map fun i => (latest? (added ++ [x]) i.identity).getD i := by
  obtain ⟨old, hold, hidentity⟩ := List.mem_map.1 hseen
  have hplace := h.mem_of_mem hold
  have hkey := (key_eq_iff hindexed hplace).2 ((identity_getD_latest? added old).trans hidentity)
  -- Replacing an item keeps its identity, so the filter may be taken before the map.
  have hidentities : (fun i : Item =>
        decide (i.identity ∈ (before.items x.type).map Item.identity)) ∘
      (fun i : Item => i.replacedBy x) =
        fun i => decide (i.identity ∈ (before.items x.type).map Item.identity) := by
    funext i
    have hi : (i.replacedBy x).identity = i.identity :=
      congrArg ItemKey.identity (Item.key_replacedBy i x)
    simp [hi]
  rw [items_addItem_of_seen hindexed hplace hkey, List.filter_map, hidentities, h.inPlace,
    List.map_map]
  refine List.map_congr_left fun i hi => ?_
  have hlatest := identity_getD_latest? added i
  have hreplaced := key_eq_iff hindexed (h.mem_of_mem hi)
  rw [Function.comp_apply, latest?_concat]
  by_cases hx : x.identity = i.identity
  · rw [if_pos hx, Item.replacedBy_of_key_eq (hreplaced.2 (hlatest.trans hx.symm)),
      Option.getD_some]
  · rw [if_neg hx, Item.replacedBy_of_key_ne]
    exact fun hkey => hx (hlatest.symm.trans (hreplaced.1 hkey)).symm

/-- One more item of another identity leaves the items that were seen before in their places. -/
theorem AddsItems.inPlace_addItem_of_new (h : AddsItems x.type added before env)
    (hindexed : ∀ l ∈ env.levels, l.items.Indexed)
    (hnew : x.identity ∉ (before.items x.type).map Item.identity) :
    ((env.addItem x).items x.type).filter
        (fun i => i.identity ∈ (before.items x.type).map Item.identity) =
      (before.items x.type).map fun i => (latest? (added ++ [x]) i.identity).getD i := by
  have hne {i : Item} (hi : i.identity ∈ (before.items x.type).map Item.identity) :
      i.identity ≠ x.identity := fun heq => hnew (heq ▸ hi)
  -- Outside the new identity nothing changes, and none of the earlier items has it.
  have hothers (items : List Item) : items.filter (fun i =>
        i.identity ∈ (before.items x.type).map Item.identity) =
      (items.filter fun i => i.identity ≠ x.identity).filter fun i =>
        i.identity ∈ (before.items x.type).map Item.identity := by
    rw [List.filter_filter]
    refine List.filter_congr fun i _ => ?_
    rw [← Bool.decide_and]
    exact decide_eq_decide.2 ⟨fun hi => ⟨hi, hne hi⟩, And.left⟩
  rw [hothers, (addsItem_addItem hindexed x).others, ← hothers, h.inPlace]
  refine List.map_congr_left fun i hi => ?_
  rw [latest?_concat, if_neg (hne (List.mem_map_of_mem hi)).symm]

/-- One more item is added behind those that were. -/
theorem AddsItems.addItem (h : AddsItems x.type added before env)
    (hindexed : ∀ l ∈ env.levels, l.items.Indexed) :
    AddsItems x.type (added ++ [x]) before (env.addItem x) where
  mem_iff i := by
    rw [mem_items_addItem_iff hindexed, h.mem_iff, latest?_concat]
    by_cases hi : x.identity = i.identity
    · simp [hi, eq_comm]
    · have hne : i ≠ x := fun heq => hi (congrArg Item.identity heq).symm
      simp [hi, hne, Ne.symm hi]
  inPlace := by
    -- The identity was listed before the batch, or the item is new to the outer listing.
    by_cases hseen : x.identity ∈ (before.items x.type).map Item.identity
    · exact h.inPlace_addItem_of_seen hindexed hseen
    · exact h.inPlace_addItem_of_new hindexed hseen
  nodup := nodup_identities (indexed_addItem hindexed x) x.type
  rest := h.rest.trans (keepsRest_addItem hindexed x)

/-- Of the items that are added the last one of an identity stays, and nothing but the items of
their type changes. -/
theorem addsItems_foldl_addItem (h : env.Reachable) (htype : ∀ x ∈ added, x.type = type) :
    AddsItems type added env (added.foldl addItem env) := by
  induction added using List.reverseRecOn with
  | nil => exact addsItems_nil h.indexed type
  | append_singleton added x ih =>
    have hadds := ih fun y hy => htype y (List.mem_append_left _ hy)
    obtain rfl : x.type = type := htype x (List.mem_append_right _ List.mem_cons_self)
    rw [List.foldl_concat]
    exact hadds.addItem (reachable_foldl_addItem h added).indexed

end BuildEngine.Environment
