import BuildEngine.Proofs.Expr.Occurrence
import BuildEngine.Proofs.Expr.Values
import BuildEngine.Proofs.Fallible

/-!
# Expressions that ask for no files

What an expression means depends on the properties and items of its context, and on the files only
where it asks whether something is there (`evaluate_congr`). Values are made of texts and references
and never ask (`asksNoFiles_of_ofValueText`), so what a value comes to stays the same while files
change (`IsValue.evaluateText_eq_ok`, `IsValue.evaluateItems_eq_ok`).
-/

namespace BuildEngine

/-- Contexts that expressions can tell apart by their files only. -/
structure Context.Agrees (ctx ctx' : Context) : Prop where
  property : ∀ name, ctx.env.property name = ctx'.env.property name
  items : ∀ type, ctx.env.items type = ctx'.env.items type
  base : ctx.base = ctx'.base
  item : ctx.item = ctx'.item

/-- Contexts go on agreeing when both look at one item. -/
theorem Context.Agrees.withItem {ctx ctx' : Context} (h : ctx.Agrees ctx') (item : Option Item) :
    { ctx with item }.Agrees { ctx' with item } :=
  { h with item := rfl }

namespace Expr

open Grammar

variable {e f : Expr} {es parts : List Expr} {ctx ctx' : Context} {type s : String}

/-- An expression in which nothing asks whether something is there. -/
def AsksNoFiles (e : Expr) : Prop :=
  ∀ argument, ¬Occurs (.call .pathExists argument) e

/-- What does not ask for files has no part that does. -/
theorem AsksNoFiles.child (h : AsksNoFiles e) (hf : f ∈ e.children) : AsksNoFiles f :=
  fun argument hoccurs => h argument (.inside hf hoccurs)

/-! ## What is the same for agreeing contexts -/

mutual

/-- An expression that asks for no files has the same value in contexts that agree. -/
theorem evaluate_congr : ∀ (e : Expr) {ctx ctx' : Context}, AsksNoFiles e → ctx.Agrees ctx' →
    e.evaluate ctx = e.evaluate ctx'
  | .literal _, _, _, _, _ | .quoted _, _, _, _, _ => rfl
  | .property name, _, _, _, hagree => by
    simp only [evaluate, hagree.property name]
  | .metadata name, _, _, _, hagree => by
    simp only [evaluate, hagree.item, hagree.base]
  | .items type, _, _, _, hagree => by
    simp only [evaluate, hagree.items type]
  | .projection type parts, _, _, h, hagree => by
    have hparts (item : Item) :=
      evaluateAll_congr parts (fun _ hpart => h.child hpart) (hagree.withItem (some item))
    simp only [evaluate, hagree.items type, hparts]
  | .concat parts, _, _, h, hagree => by
    simp only [evaluate, evaluateAll_congr parts (fun _ hpart => h.child hpart) hagree]
  | .list elements, _, _, h, hagree => by
    simp only [evaluate, evaluateAll_congr elements (fun _ helement => h.child helement) hagree]
  | .not e, _, _, h, hagree => by
    simp only [evaluate, evaluate_congr e (h.child List.mem_cons_self) hagree]
  | .binary op l r, _, _, h, hagree => by
    have hl : AsksNoFiles l := h.child List.mem_cons_self
    have hr : AsksNoFiles r := h.child (List.mem_cons_of_mem l List.mem_cons_self)
    simp only [evaluate, evaluate_congr l hl hagree, evaluate_congr r hr hagree]
  -- The only place where the files are asked, and there is no such place.
  | .call .pathExists e, _, _, h, _ => absurd .self (h e)
  | .call .hasTrailingSlash e, _, _, h, hagree => by
    simp only [evaluate, evaluate_congr e (h.child List.mem_cons_self) hagree, Builtin.apply]

/-- Parts that do not ask for files say the same in contexts that agree. -/
theorem evaluateAll_congr : ∀ (es : List Expr) {ctx ctx' : Context}, (∀ e ∈ es, AsksNoFiles e) →
    ctx.Agrees ctx' → evaluateAll es ctx = evaluateAll es ctx'
  | [], _, _, _, _ => rfl
  | e :: es, _, _, h, hagree => by
    rw [List.forall_mem_cons] at h
    simp only [evaluateAll, evaluate_congr e h.1 hagree, evaluateAll_congr es h.2 hagree]

end

/-- The entries of the text of such an expression are the same in contexts that agree. -/
theorem entryItems_congr (h : AsksNoFiles e) (hagree : ctx.Agrees ctx') :
    e.entryItems ctx type = e.entryItems ctx' type := by
  simp only [entryItems, evaluateEntries, evaluateText, evaluate_congr e h hagree]

/-- What such parts make of items is the same in contexts that agree. -/
theorem projectItems_congr (h : ∀ e ∈ parts, AsksNoFiles e) (hagree : ctx.Agrees ctx')
    (items : List Item) :
    projectItems parts ctx type items = projectItems parts ctx' type items := by
  induction items with
  | nil => rfl
  | cons item items ih =>
    simp only [projectItems, evaluateAll_congr parts h (hagree.withItem (some item)), ih]

/-- An expression whose items are the entries of its text has the same items in contexts that agree,
if it does not ask for files. -/
theorem IsTextual.evaluateItems_congr (htextual : IsTextual e) (h : AsksNoFiles e)
    (hagree : ctx.Agrees ctx') : e.evaluateItems ctx type = e.evaluateItems ctx' type := by
  rw [htextual.evaluateItems_eq, htextual.evaluateItems_eq]
  exact entryItems_congr h hagree

mutual

/-- An expression that asks for no files makes the same items in contexts that agree. -/
theorem evaluateItems_congr : ∀ (e : Expr) {ctx ctx' : Context}, AsksNoFiles e →
    ctx.Agrees ctx' → ∀ type, e.evaluateItems ctx type = e.evaluateItems ctx' type
  | .items name, _, _, _, hagree, _ => by
    simp only [evaluateItems, hagree.items name]
  | .projection name parts, _, _, h, hagree, _ => by
    simp only [evaluateItems, hagree.items name]
    exact projectItems_congr (fun _ hpart => h.child hpart) hagree _
  | .list elements, _, _, h, hagree, _ => by
    simp only [evaluateItems,
      evaluateAllItems_congr elements (fun _ helement => h.child helement) hagree]
  -- A single part in quotes may produce items; all other trees are texts.
  | .concat [part], _, _, h, hagree, type => by
    by_cases hpart : part.isItemProducing = true
    · simp only [evaluateItems_concat_singleton hpart]
      exact evaluateItems_congr part (h.child List.mem_cons_self) hagree type
    · have htextual : IsTextual (.concat [part]) :=
        ⟨rfl, by rintro _ ⟨⟩; exact Bool.eq_false_iff.2 hpart⟩
      exact htextual.evaluateItems_congr h hagree
  | .concat [], _, _, h, hagree, _ => IsTextual.evaluateItems_congr ⟨rfl, nofun⟩ h hagree
  | .concat (_ :: _ :: _), _, _, h, hagree, _ => IsTextual.evaluateItems_congr ⟨rfl, nofun⟩ h hagree
  | .literal _, _, _, h, hagree, _ | .quoted _, _, _, h, hagree, _
  | .property _, _, _, h, hagree, _ | .metadata _, _, _, h, hagree, _
  | .not _, _, _, h, hagree, _ | .binary .., _, _, h, hagree, _ | .call .., _, _, h, hagree, _ =>
    IsTextual.evaluateItems_congr ⟨rfl, nofun⟩ h hagree

/-- Elements that do not ask for files have the same items in contexts that agree. -/
theorem evaluateAllItems_congr : ∀ (es : List Expr) {ctx ctx' : Context},
    (∀ e ∈ es, AsksNoFiles e) → ctx.Agrees ctx' →
      ∀ type, evaluateAllItems es ctx type = evaluateAllItems es ctx' type
  | [], _, _, _, _, _ => rfl
  | e :: es, _, _, h, hagree, type => by
    rw [List.forall_mem_cons] at h
    simp only [evaluateAllItems, evaluateItems_congr e h.1 hagree,
      evaluateAllItems_congr es h.2 hagree]

end

/-! ## Values -/

/-- An expression does not ask for files if it is no question itself and its children are none. -/
theorem asksNoFiles_of_children (he : ∀ argument, e ≠ .call .pathExists argument)
    (h : ∀ f ∈ e.children, AsksNoFiles f) : AsksNoFiles e := by
  intro argument hoccurs
  cases hoccurs with
  | self => exact he argument rfl
  | inside hf hoccurs => exact h _ hf argument hoccurs

/-- Text does not ask for files. -/
theorem asksNoFiles_textPart {ts : List Token} : ∀ e ∈ textPart ts, AsksNoFiles e := by
  intro e he
  unfold textPart at he
  dsimp only at he
  split at he
  · cases he
  · rw [List.mem_singleton.1 he]
    exact asksNoFiles_of_children nofun nofun

mutual

/-- A reference does not ask for files. -/
theorem asksNoFiles_of_reference : ∀ {ts : List Token} {e : Expr}, Reference ts e → AsksNoFiles e
  | _, _, .property .. | _, _, .metadata .. | _, _, .items .. =>
    asksNoFiles_of_children nofun nofun
  | _, _, .projection _ _ _ hparts _ =>
    asksNoFiles_of_children nofun (asksNoFiles_of_template hparts)

/-- A template does not ask for files: what looks like a call in it is text. -/
theorem asksNoFiles_of_template : ∀ {stop : TokenKind} {ts : List Token} {parts : List Expr},
    Template stop ts parts → ∀ e ∈ parts, AsksNoFiles e
  | _, _, _, .text _ => asksNoFiles_textPart
  | _, _, _, .reference _ hreference hrest =>
    List.forall_mem_append.2 ⟨asksNoFiles_textPart, List.forall_mem_cons.2
      ⟨asksNoFiles_of_reference hreference, asksNoFiles_of_template hrest⟩⟩

end

/-- Segments of a value do not ask for files. -/
theorem asksNoFiles_of_segments {ts : List Token} {segments : List (List Expr)}
    (h : Segments ts segments) : ∀ parts ∈ segments, AsksNoFiles (.concat parts) := by
  induction h with
  | single hts =>
    rw [List.forall_mem_singleton]
    exact asksNoFiles_of_children nofun (asksNoFiles_of_template hts)
  | cons hts _ ih =>
    exact List.forall_mem_cons.2
      ⟨asksNoFiles_of_children nofun (asksNoFiles_of_template hts), ih⟩

/-- What a text spells as a value asks for no files. -/
theorem asksNoFiles_of_ofValueText (h : ofValueText s = .ok e) : AsksNoFiles e := by
  obtain ⟨segments, hsegments, rfl⟩ := ofValueText_eq_ok_iff.1 h
  have hparts := asksNoFiles_of_segments hsegments
  unfold ofSegments
  split
  · exact hparts _ List.mem_cons_self
  · exact asksNoFiles_of_children nofun (List.forall_mem_map.2 hparts)

/-- What some text spells as a value, or the normal form of that. -/
def IsValue (e : Expr) : Prop :=
  ∃ s tree, ofValueText s = .ok tree ∧ (e = tree ∨ e = normalize tree)

/-- A value comes to the same in contexts that agree. -/
theorem IsValue.outcome_evaluate (h : IsValue e) (hagree : ctx.Agrees ctx') :
    outcome (e.evaluate ctx) = outcome (e.evaluate ctx') := by
  obtain ⟨s, tree, htree, rfl | rfl⟩ := h
  · rw [evaluate_congr _ (asksNoFiles_of_ofValueText htree) hagree]
  · rw [outcome_evaluate_normalize, outcome_evaluate_normalize,
      evaluate_congr _ (asksNoFiles_of_ofValueText htree) hagree]

/-- The items of a value are the same in contexts that agree. -/
theorem IsValue.outcome_evaluateItems (h : IsValue e) (hagree : ctx.Agrees ctx') (type : String) :
    outcome (e.evaluateItems ctx type) = outcome (e.evaluateItems ctx' type) := by
  obtain ⟨s, tree, htree, rfl | rfl⟩ := h
  · rw [evaluateItems_congr _ (asksNoFiles_of_ofValueText htree) hagree]
  · have hunwrapped := unwrapped_of_ofValueText htree
    rw [outcome_evaluateItems_normalize hunwrapped, outcome_evaluateItems_normalize hunwrapped,
      evaluateItems_congr _ (asksNoFiles_of_ofValueText htree) hagree]

/-- What comes to the same as a result has that result. -/
theorem eq_ok_of_outcome_eq {α : Type} {x y : Except EvalError α} {a : α}
    (h : outcome x = outcome y) (hx : x = .ok a) : y = .ok a := by
  rw [hx, outcome_ok] at h
  exact mapError_eq_ok_iff.1 h.symm

/-- The text of a value is the same in contexts that agree. -/
theorem IsValue.evaluateText_eq_ok {text : String} (h : IsValue e) (hagree : ctx.Agrees ctx')
    (htext : e.evaluateText ctx = .ok text) : e.evaluateText ctx' = .ok text := by
  obtain ⟨v, hv, htext⟩ := exists_of_bind_eq_ok htext
  rw [evaluateText, eq_ok_of_outcome_eq (h.outcome_evaluate hagree) hv]
  exact htext

/-- The entries of a value are the same in contexts that agree. -/
theorem IsValue.evaluateEntries_eq_ok {entries : List String} (h : IsValue e)
    (hagree : ctx.Agrees ctx') (hentries : e.evaluateEntries ctx = .ok entries) :
    e.evaluateEntries ctx' = .ok entries := by
  obtain ⟨text, htext, hentries⟩ := exists_of_bind_eq_ok hentries
  rw [evaluateEntries, h.evaluateText_eq_ok hagree htext]
  exact hentries

/-- The items of a value, where there are some, are the same in contexts that agree. -/
theorem IsValue.evaluateItems_eq_ok {items : List Item} (h : IsValue e) (hagree : ctx.Agrees ctx')
    (hitems : e.evaluateItems ctx type = .ok items) : e.evaluateItems ctx' type = .ok items :=
  eq_ok_of_outcome_eq (h.outcome_evaluateItems hagree type) hitems

end Expr

end BuildEngine
