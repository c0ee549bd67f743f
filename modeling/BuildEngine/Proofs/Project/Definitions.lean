import BuildEngine.Project.Evaluation
import BuildEngine.Proofs.Environment.Batches
import BuildEngine.Proofs.Expr.Materializing
import BuildEngine.Proofs.Fallible

/-!
# What item definitions do

A definition that is enabled removes the items of its type that match its patterns, or adds items of
its type. An item that is added comes from an entry of what the definition includes: it is that item
or a file that matches it as a wildcard (`Expands`), it matches none of the excluded patterns, and
it has the metadata of the definition on top of its own (`Describes`). Every definition is evaluated
in the environment that those before it leave behind, and one that fails leaves that environment as
it is (`item_definitions_take_effect`).
-/

namespace BuildEngine

/-! ## Metadata -/

namespace Bindings

/-- The last value of a name. -/
def last? (pairs : List (String × String)) (name : String) : Option String :=
  (pairs.reverse.find? fun p => p.1 = name).map Prod.snd

/-- The last of the pairs decides about its name, and about no other. -/
theorem last?_concat (pairs : List (String × String)) (p : String × String) (name : String) :
    last? (pairs ++ [p]) name = if p.1 = name then some p.2 else last? pairs name := by
  unfold last?
  rw [List.reverse_concat, List.find?_cons]
  split <;> simp_all

/-- Of all values that are bound to a name the last one stays. -/
theorem get?_setAll (b : Bindings) (pairs : List (String × String)) (name : String) :
    (b.setAll pairs).get? name = (last? pairs name).or (b.get? name) := by
  induction pairs using List.reverseRecOn with
  | nil => rfl
  | append_singleton pairs p ih =>
    have hset : b.setAll (pairs ++ [p]) = (b.setAll pairs).set p.1 p.2 := List.foldl_concat ..
    rw [hset, last?_concat]
    by_cases hp : p.1 = name
    · rw [if_pos hp, hp, get?_set_self, Option.some_or]
    · rw [if_neg hp, get?_set_of_ne _ _ (Ne.symm hp), ih]

end Bindings

/-! ## Types -/

namespace Expr

variable {e : Expr} {es parts : List Expr} {ctx : Context} {type : String}
  {sources made : List Item}

/-- Items made of entries have the type that was asked for. -/
theorem type_of_entryItems (h : e.entryItems ctx type = .ok made) : ∀ i ∈ made, i.type = type := by
  obtain ⟨entries, -, hmade⟩ := exists_of_bind_eq_ok h
  cases hmade
  intro i hi
  obtain ⟨identity, -, rfl⟩ := List.mem_map.1 hi
  rfl

/-- The items of an expression of text have the type that was asked for. -/
theorem type_of_evaluateItems_of_isTextual (h : e.evaluateItems ctx type = .ok made)
    (he : IsTextual e) : ∀ i ∈ made, i.type = type :=
  type_of_entryItems (he.evaluateItems_eq ctx type ▸ h)

/-- Projected items have the type that was asked for. -/
theorem type_of_projectItems (h : projectItems parts ctx type sources = .ok made) :
    ∀ i ∈ made, i.type = type := by
  induction sources generalizing made with
  | nil =>
    cases h
    exact nofun
  | cons source sources ih =>
    obtain ⟨texts, -, h⟩ := exists_of_bind_eq_ok h
    obtain ⟨more, hmore, h⟩ := exists_of_bind_eq_ok h
    cases h
    split
    · exact ih hmore
    · exact List.forall_mem_cons.2 ⟨rfl, ih hmore⟩

mutual

/-- What is evaluated to items of a type is of that type. -/
theorem type_of_evaluateItems : ∀ {e : Expr} {made : List Item},
    e.evaluateItems ctx type = .ok made → ∀ i ∈ made, i.type = type
  | .items n, made, h => by
    rw [evaluateItems] at h
    cases h
    exact List.forall_mem_map.2 fun _ _ => rfl
  | .projection n parts, made, h => by
    rw [evaluateItems] at h
    exact type_of_projectItems h
  | .list elements, made, h => by
    rw [evaluateItems] at h
    exact type_of_evaluateAllItems h
  -- One part in quotes may produce items; otherwise it is split as a text.
  | .concat [part], made, h => by
    by_cases hproducing : part.isItemProducing = true
    · rw [evaluateItems_concat_singleton hproducing] at h
      exact type_of_evaluateItems h
    · rw [evaluateItems, if_neg hproducing] at h
      exact type_of_entryItems h
  | .concat [], _, h | .concat (_ :: _ :: _), _, h | .literal _, _, h | .quoted _, _, h
  | .property _, _, h | .metadata _, _, h | .not _, _, h | .binary .., _, h | .call .., _, h =>
    type_of_evaluateItems_of_isTextual h ⟨rfl, nofun⟩

/-- The items of elements have the type that was asked for. -/
theorem type_of_evaluateAllItems : ∀ {es : List Expr} {made : List Item},
    evaluateAllItems es ctx type = .ok made → ∀ i ∈ made, i.type = type
  | [], made, h => by
    rw [evaluateAllItems_nil] at h
    cases h
    exact nofun
  | e :: es, made, h => by
    rw [evaluateAllItems_cons] at h
    obtain ⟨first, hfirst, h⟩ := exists_of_bind_eq_ok h
    obtain ⟨more, hmore, h⟩ := exists_of_bind_eq_ok h
    cases h
    rw [List.forall_mem_append]
    exact ⟨type_of_evaluateItems hfirst, type_of_evaluateAllItems hmore⟩

end

end Expr

namespace Environment

variable {place : Place} {env before middle after : Environment} {d : ItemDefinition}
  {ds : List ItemDefinition} {type : String} {i j : Item} {ctx : Context}
  {metadata : List (String × Expr)} {excluded : Option Expr} {items patterns : Expr}
  {new : List Item} {e : EvalError}

/-! ## Candidates -/

/-- The items that an evaluated item stands for: itself, or one for every file that its identity
matches. -/
inductive Expands (place : Place) (type : String) (i : Item) : List Item → Prop
  | itself : Glob.hasWildcard i.identity.toList = false → Expands place type i [i]
  | files {new : List Item} : Glob.hasWildcard i.identity.toList = true →
    List.Forall₂ (fun found j => j.type = type ∧ j.identity = found.identity ∧
      ∀ name, j.metadata.get? name =
        if name = WellKnown.recursiveDir.name then some found.recursiveDir
        else i.metadata.get? name)
      (Glob.expand place.files place.base i.identity) new →
    Expands place type i new

/-- An item is expanded to what it stands for. -/
theorem expands_expandItem (place : Place) (type : String) (i : Item) :
    Expands place type i (expandItem place type i) := by
  unfold expandItem
  split
  · next h =>
    refine .files h (List.forall₂_map_right_iff.2 (List.forall₂_same.2 fun found _ => ?_))
    refine ⟨rfl, rfl, fun name => ?_⟩
    split
    · next hname => rw [hname, Bindings.get?_set_self]
    · next hname => rw [Bindings.get?_set_of_ne _ _ hname]
  · next h => exact .itself (Bool.eq_false_iff.2 h)

/-- Expanding keeps the type. -/
theorem type_of_mem_expandItem (hi : i.type = type) :
    ∀ j ∈ expandItem place type i, j.type = type := by
  unfold expandItem
  split
  · exact List.forall_mem_map.2 fun _ _ => rfl
  · exact List.forall_mem_singleton.2 hi

/-- An item with the metadata of a definition on top of its own, evaluated for that item. -/
def Describes (ctx : Context) (metadata : List (String × Expr)) (i j : Item) : Prop :=
  j.type = i.type ∧ j.identity = i.identity ∧
    ∃ values : List (String × String),
      List.Forall₂ (fun (name, value) v => v.1 = name ∧
        value.evaluateText { ctx with item := some i } = .ok v.2) metadata values ∧
      ∀ name, j.metadata.get? name = (Bindings.last? values name).or (i.metadata.get? name)

/-- Metadata that is evaluated for an item describes it. -/
theorem describes_of_withMetadata (h : withMetadata ctx metadata i = .ok j) :
    Describes ctx metadata i j := by
  obtain ⟨values, hvalues, h⟩ := exists_of_bind_eq_ok h
  cases h
  refine ⟨rfl, rfl, values, (mapM_eq_ok_iff.1 hvalues).imp ?_, Bindings.get?_setAll _ _⟩
  rintro ⟨name, value⟩ v hv
  obtain ⟨text, htext, hv⟩ := exists_of_bind_eq_ok hv
  cases hv
  exact ⟨rfl, htext⟩

/-- The entries of the patterns that are excluded, if there are any. -/
def excludedEntries (ctx : Context) : Option Expr → Except EvalError (List String)
  | some e => e.evaluateEntries ctx
  | none => .ok []

/-- How new items come about: candidates, those of them that are not excluded, and their metadata.
-/
theorem newItems_eq : newItems place env type items excluded metadata = (do
    let patterns ← excludedEntries (place.context env) excluded
    let evaluated ← items.evaluateItems (place.context env) type
    let candidates := evaluated.flatMap (expandItem place type)
    let kept := candidates.filter fun i => !matchesAny place.base patterns i.identity
    kept.mapM (withMetadata (place.context env) metadata)) := by
  cases excluded <;> rfl

/-- What an addition includes: the items that its expression evaluates to stand for candidates, and
those of them that match no excluded pattern get the metadata. -/
def Includes (place : Place) (env : Environment) (type : String) (items : Expr)
    (excluded : Option Expr) (metadata : List (String × Expr)) (new : List Item) : Prop :=
  ∃ (patterns : List String) (evaluated : List Item) (candidates : List (List Item)),
    excludedEntries (place.context env) excluded = .ok patterns ∧
      items.evaluateItems (place.context env) type = .ok evaluated ∧
        List.Forall₂ (Expands place type) evaluated candidates ∧
          List.Forall₂ (Describes (place.context env) metadata)
            (candidates.flatten.filter fun i => !matchesAny place.base patterns i.identity) new

/-- New items are what an addition includes, and have its type. -/
theorem includes_of_newItems (h : newItems place env type items excluded metadata = .ok new) :
    Includes place env type items excluded metadata new ∧ ∀ j ∈ new, j.type = type := by
  rw [newItems_eq] at h
  obtain ⟨patterns, hpatterns, h⟩ := exists_of_bind_eq_ok h
  obtain ⟨evaluated, hevaluated, h⟩ := exists_of_bind_eq_ok h
  refine ⟨⟨patterns, evaluated, evaluated.map (expandItem place type), hpatterns, hevaluated, ?_,
    (mapM_eq_ok_iff.1 h).imp fun _ _ => describes_of_withMetadata⟩, ?_⟩
  · exact List.forall₂_map_right_iff.2
      (List.forall₂_same.2 fun i _ => expands_expandItem place type i)
  · intro j hj
    obtain ⟨i, hi, hij⟩ := exists_of_mem_mapM h hj
    obtain ⟨source, hsource, hi⟩ := List.mem_flatMap.1 (List.mem_of_mem_filter hi)
    rw [(describes_of_withMetadata hij).1]
    exact type_of_mem_expandItem (Expr.type_of_evaluateItems hevaluated source hsource) i hi

/-! ## One definition -/

/-- What an item definition does to an environment. -/
inductive Does (place : Place) (d : ItemDefinition) (before : Environment) : Environment → Prop
  | disabled : Expr.evaluateOptional d.condition (place.context before) = .ok false →
    Does place d before before
  /-- The items of its type that match a pattern are gone. -/
  | removes {patterns : Expr} {entries : List String} {after : Environment} :
    Expr.evaluateOptional d.condition (place.context before) = .ok true →
    d.action = .remove patterns →
    patterns.evaluateEntries (place.context before) = .ok entries →
    after.items d.type =
      (before.items d.type).filter (fun i => !matchesAny place.base entries i.identity) →
    KeepsRest d.type before after →
    Does place d before after
  /-- The items that it includes are seen, the last one of an identity each. -/
  | adds {items : Expr} {excluded : Option Expr} {metadata : List (String × Expr)}
    {new : List Item} {after : Environment} :
    Expr.evaluateOptional d.condition (place.context before) = .ok true →
    d.action = .add items excluded metadata →
    Includes place before d.type items excluded metadata new →
    AddsItems d.type new before after →
    Does place d before after

/-- A definition that is evaluated does what it says, and leaves an environment that can be gone on
with. -/
theorem does_of_defineItems (h : env.Reachable) (hdefine : defineItems place env d = .ok after) :
    Does place d env after ∧ after.Reachable := by
  obtain ⟨enabled, hcondition, hdefine⟩ := exists_of_bind_eq_ok hdefine
  -- Disabled, a removal, or an addition: each rule of `Does` is one of the branches.
  cases enabled with
  | false =>
    cases hdefine
    exact ⟨.disabled hcondition, h⟩
  | true =>
    rw [if_pos rfl] at hdefine
    cases haction : d.action with
    | remove patterns =>
      rw [haction] at hdefine
      obtain ⟨entries, hentries, hdefine⟩ := exists_of_bind_eq_ok hdefine
      cases hdefine
      exact ⟨.removes hcondition haction hentries (items_remove_filter h d.type _)
        (keepsRest_foldl_removeItem h d.type _), reachable_foldl_removeItem h d.type _⟩
    | add items excluded metadata =>
      rw [haction] at hdefine
      obtain ⟨new, hnew, hdefine⟩ := exists_of_bind_eq_ok hdefine
      cases hdefine
      obtain ⟨hincludes, htype⟩ := includes_of_newItems hnew
      exact ⟨.adds hcondition haction hincludes (addsItems_foldl_addItem h htype),
        reachable_foldl_addItem h new⟩

/-! ## Definitions one after the other -/

/-- What a list of definitions does to an environment, given what each of them does to what those
before it left behind. -/
inductive InTurn {α : Type} (Does : α → Environment → Environment → Prop) :
    List α → Environment → Environment → Prop
  | nil {env : Environment} : InTurn Does [] env env
  | cons {d : α} {ds : List α} {before middle after : Environment} : Does d before middle →
    InTurn Does ds middle after → InTurn Does (d :: ds) before after

section DefineAll

variable {α : Type} {define : Environment → α → Except EvalError Environment}
  {Does : α → Environment → Environment → Prop} {c : α} {cs : List α}

/-- Definitions that are all evaluated take effect in turn, if each does what it says. -/
theorem inTurn_of_defineAll (h : env.Reachable)
    (hstep : ∀ {env after c}, env.Reachable → define env c = .ok after →
      Does c env after ∧ after.Reachable)
    (hall : defineAll define env cs = (after, .ok ())) : InTurn Does cs env after := by
  -- On the definitions, each of which starts from what those before it left.
  induction cs generalizing env with
  | nil =>
    cases hall
    exact .nil
  | cons c cs ih =>
    rw [defineAll] at hall
    split at hall
    · next middle hmiddle =>
      obtain ⟨hdoes, hreachable⟩ := hstep h hmiddle
      exact .cons hdoes (ih hreachable hall)
    · cases hall

/-- Where a definition fails, what those before it left behind stays. -/
theorem exists_of_defineAll_eq_error (h : defineAll define env cs = (after, .error e)) :
    ∃ done c rest, cs = done ++ c :: rest ∧ defineAll define env done = (after, .ok ()) ∧
      define after c = .error e := by
  -- On the definitions: those before the first that fails have taken effect.
  induction cs generalizing env with
  | nil => cases h
  | cons c cs ih =>
    rw [defineAll] at h
    split at h
    · next middle hmiddle =>
      obtain ⟨done, c', rest, rfl, hdone, hc'⟩ := ih h
      refine ⟨c :: done, c', rest, rfl, ?_, hc'⟩
      rw [defineAll, hmiddle]
      exact hdone
    · next e' he =>
      cases h
      exact ⟨[], c, cs, rfl, rfl, he⟩

end DefineAll

/-- Item definitions that are all made do what they say one after the other. If one fails, the
environment is the one that those before it leave behind, and they did what they say. -/
theorem item_definitions_take_effect (h : env.Reachable) (place : Place)
    (ds : List ItemDefinition) :
    (∀ after, defineItemsAll place env ds = (after, .ok ()) → InTurn (Does place) ds env after) ∧
      ∀ after e, defineItemsAll place env ds = (after, .error e) →
        ∃ done d rest, ds = done ++ d :: rest ∧
          defineItemsAll place env done = (after, .ok ()) ∧ InTurn (Does place) done env after ∧
            defineItems place after d = .error e := by
  have hinTurn {ds : List ItemDefinition} {after : Environment}
      (hall : defineItemsAll place env ds = (after, .ok ())) : InTurn (Does place) ds env after :=
    inTurn_of_defineAll h does_of_defineItems hall
  refine ⟨fun after hall => hinTurn hall, fun after e herror => ?_⟩
  obtain ⟨done, d, rest, hds, hdone, hd⟩ := exists_of_defineAll_eq_error herror
  exact ⟨done, d, rest, hds, hdone, hinTurn hdone, hd⟩

/-- Sources in a directory, one of them generated and one that is out of date. -/
def sourcePlace : Place :=
  let files := ["/p/src/a.cs", "/p/src/gen/b.cs", "/p/src/gen/old.cs"].map fun text =>
    ⟨⟨text⟩, [], 0⟩
  ⟨.memory ⟨files, 0, ⟨"/p"⟩, []⟩, ⟨"/p"⟩⟩

/-- All sources but one with a link each, and then without those that are not generated. -/
def sourceDefinitions : List ItemDefinition :=
  [⟨"Compile", .add (.literal "src/**/*.cs") (some (.literal "src/gen/old.cs"))
      [("Link", .concat [.metadata "RecursiveDir", .metadata "Filename"])], none⟩,
    ⟨"Compile", .remove (.literal "src/a.cs"), none⟩]

/-- A definition whose condition is no truth value. -/
def undecidedDefinition : ItemDefinition :=
  ⟨"Compile", .remove (.literal "src/**"), some (.literal "maybe")⟩

/-- One generated source is left with its link, also where a definition fails afterwards. -/
theorem item_definitions_take_effect_sources :
    let (after, _) := defineItemsAll sourcePlace .empty sourceDefinitions
    let (failed, _) :=
      defineItemsAll sourcePlace .empty (sourceDefinitions ++ [undecidedDefinition])
    after.items "Compile" =
        [⟨"Compile", "src/gen/b.cs", [("Link", "gen/b"), ("RecursiveDir", "gen/")]⟩] ∧
      InTurn (Does sourcePlace) sourceDefinitions .empty after ∧ failed = after ∧
        ∃ done d rest, sourceDefinitions ++ [undecidedDefinition] = done ++ d :: rest ∧
          InTurn (Does sourcePlace) done .empty failed := by
  refine ⟨by decide +kernel, ?_, by decide +kernel, ?_⟩
  · exact (item_definitions_take_effect .empty sourcePlace sourceDefinitions).1 _ rfl
  · obtain ⟨done, d, rest, hds, -, hdone, -⟩ := (item_definitions_take_effect .empty sourcePlace
      (sourceDefinitions ++ [undecidedDefinition])).2 _
      (.notABoolean (.literal "maybe") "maybe") rfl
    exact ⟨done, d, rest, hds, hdone⟩

end Environment

end BuildEngine
