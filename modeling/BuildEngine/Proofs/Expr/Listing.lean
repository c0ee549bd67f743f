import BuildEngine.Proofs.Expr.Materializing
import BuildEngine.Proofs.Expr.Occurrence
import BuildEngine.Proofs.Text.Entries

/-!
# Items and entries are the same list

An expression can be listed in two ways. Its items are made from its shape: references and
projections yield one item for each of theirs. Its entries are read off its text, into which all of
these were joined. The two lists agree (`identities_evaluateItems`) as long as what is joined can be
told apart again, which is said by `Listable`: no identity and no projected text is lost, cut or
trimmed on its way through the text.
-/

namespace BuildEngine.Expr

variable {e : Expr} {parts elements : List Expr} {ctx : Context} {type : String}

/-- Items and projected texts that come back from the text of a list. A projected text may be empty,
it leaves neither an item nor an entry. -/
structure Listable (ctx : Context) (e : Expr) : Prop where
  /-- The identities of the items referred to can be entries. -/
  items : ∀ n, Occurs (.items n) e → ∀ i ∈ ctx.env.items n, Text.IsEntry i.identity
  /-- What a projection makes of an item can be an entry, or is empty. -/
  projection : ∀ n parts, Occurs (.projection n parts) e → ∀ source ∈ ctx.env.items n, ∀ s,
    (Expr.concat parts).evaluateText { ctx with item := some source } = .ok s →
      s = "" ∨ Text.IsEntry s

/-- Parts of an expression whose items come back are of the same kind. -/
theorem Listable.of_mem_children {f : Expr} (h : Listable ctx f) (he : e ∈ f.children) :
    Listable ctx e where
  items n hn := h.items n (hn.trans (occurs_of_mem_children he))
  projection n parts hn := h.projection n parts (hn.trans (occurs_of_mem_children he))

/-- The items of an expression come back if those of its parts do, as do those that it refers to
itself. -/
theorem listable_of_children (hchildren : ∀ f ∈ e.children, Listable ctx f)
    (hitems : ∀ n, e = .items n → ∀ i ∈ ctx.env.items n, Text.IsEntry i.identity)
    (hprojection : ∀ n parts, e = .projection n parts → ∀ source ∈ ctx.env.items n, ∀ s,
      (Expr.concat parts).evaluateText { ctx with item := some source } = .ok s →
        s = "" ∨ Text.IsEntry s) :
    Listable ctx e where
  items n hn := by
    -- A reference is the tree itself or occurs in one of its children.
    rcases occurs_iff.1 hn with he | ⟨f, hf, hn⟩
    · exact hitems n he.symm
    · exact (hchildren f hf).items n hn
  projection n parts hn := by
    rcases occurs_iff.1 hn with he | ⟨f, hf, hn⟩
    · exact hprojection n parts he.symm
    · exact (hchildren f hf).projection n parts hn

/-! ## Entries of lists and projections -/

/-- The entries of a list are those of its elements one after the other. -/
theorem evaluateEntries_list_cons :
    (Expr.list (e :: elements)).evaluateEntries ctx = do
      let entries ← e.evaluateEntries ctx
      return entries ++ (← (Expr.list elements).evaluateEntries ctx) := by
  simp only [evaluateEntries, evaluateText, evaluate, evaluateAll, bind_assoc, pure_bind,
    Value.toText, Text.entries_joinEntries, List.flatMap_cons]

/-- The entries of a projection are those of its texts; an empty text has none. -/
theorem evaluateEntries_projection (n : String) (parts : List Expr) :
    (Expr.projection n parts).evaluateEntries ctx = do
      let texts ← (ctx.env.items n).mapM fun item =>
        gather id parts { ctx with item := some item }
      return texts.flatMap Text.entries := by
  simp only [evaluateEntries, evaluateText, evaluate_projection, bind_assoc, pure_bind,
    Value.toText, Text.entries_joinEntries_filter]

/-! ## Identities of items -/

/-- A projection makes an item of every text that is not empty. -/
theorem identities_projectItems {sources : List Item}
    (h : ∀ source ∈ sources, ∀ s, gather id parts { ctx with item := some source } = .ok s →
      s = "" ∨ Text.IsEntry s) :
    (do return (← projectItems parts ctx type sources).map Item.identity) = do
      let texts ← sources.mapM fun item => gather id parts { ctx with item := some item }
      return texts.flatMap Text.entries := by
  induction sources with
  | nil => rfl
  | cons source sources ih =>
    rw [List.forall_mem_cons] at h
    have ih := ih h.2
    rw [projectItems_cons, List.mapM_cons]
    cases hs : gather id parts { ctx with item := some source } with
    | error err => rfl
    | ok s =>
      -- An empty text leaves neither an item nor an entry, any other one leaves one of each.
      have hitems (more : List Item) :
          (if s = "" then more else { source with type, identity := s } :: more).map Item.identity =
            Text.entries s ++ more.map Item.identity := by
        rcases h.1 s hs with rfl | hentry
        · rw [if_pos rfl, Text.entries_empty, List.nil_append]
        · rw [if_neg hentry.ne_empty, hentry.entries_eq, List.map_cons, List.singleton_append]
      have hpure : (Except.ok s : Except EvalError String) = pure s := rfl
      have happend := congrArg (fun x => x >>= fun xs => pure (Text.entries s ++ xs)) ih
      simpa only [hpure, bind_assoc, pure_bind, hitems, List.flatMap_cons] using happend

/-- Items that are read off a text have its entries as their identities. -/
theorem IsTextual.identities_eq (h : IsTextual e) :
    (do return (← e.evaluateItems ctx type).map Item.identity) = e.evaluateEntries ctx := by
  have hidentity : Item.identity ∘ Item.ofIdentity type = id := rfl
  simp only [h.evaluateItems_eq, entryItems, bind_assoc, pure_bind, List.map_map, hidentity,
    List.map_id, bind_pure]

mutual

/-- The identities of the items of an expression are the entries of its text. -/
theorem identities_evaluateItems :
    ∀ {e : Expr}, Listable ctx e → ∀ type : String,
      (do return (← e.evaluateItems ctx type).map Item.identity) = e.evaluateEntries ctx
  | .items n, h, type => by
    have hentries := Text.entries_joinEntries_of_isEntry
      (List.forall_mem_map.2 (h.items n .self))
    calc (do return (← (Expr.items n).evaluateItems ctx type).map Item.identity)
        = pure (((ctx.env.items n).map (Item.retype · type)).map Item.identity) := by
          rw [evaluateItems]
          rfl
      _ = pure ((ctx.env.items n).map Item.identity) := by
          rw [List.map_map]
          rfl
      _ = (Expr.items n).evaluateEntries ctx := by
          rw [← hentries]
          rfl
  | .projection n parts, h, type => by
    rw [evaluateItems, evaluateEntries_projection]
    refine identities_projectItems fun source hsource s hs => ?_
    exact h.projection n parts .self source hsource s (evaluateText_concat parts ▸ hs)
  | .list elements, h, type => by
    rw [evaluateItems]
    exact identities_evaluateAllItems (fun e he => h.of_mem_children he) type
  | .concat [part], h, type => by
    -- A single reference keeps its items; everything else in quotes is read off its text.
    by_cases hproducing : part.isItemProducing = true
    · rw [evaluateItems_concat_singleton hproducing,
        identities_evaluateItems (h.of_mem_children List.mem_cons_self) type]
      simp only [evaluateEntries, evaluateText_concat, gather_singleton, id, bind_pure]
    · refine IsTextual.identities_eq ⟨rfl, fun part' hpart => ?_⟩
      cases hpart
      exact Bool.eq_false_iff.2 hproducing
  | .concat [], _, _ | .concat (_ :: _ :: _), _, _ | .literal _, _, _ | .quoted _, _, _
  | .property _, _, _ | .metadata _, _, _ | .not _, _, _ | .binary .., _, _ | .call .., _, _ =>
    IsTextual.identities_eq ⟨rfl, nofun⟩

/-- The identities of the items of elements are the entries of the list. -/
theorem identities_evaluateAllItems :
    ∀ {elements : List Expr}, (∀ e ∈ elements, Listable ctx e) → ∀ type : String,
      (do return (← evaluateAllItems elements ctx type).map Item.identity) =
        (Expr.list elements).evaluateEntries ctx
  | [], _, _ => rfl
  | e :: elements, h, type => by
    rw [List.forall_mem_cons] at h
    rw [evaluateAllItems_cons, evaluateEntries_list_cons, ← identities_evaluateItems h.1 type,
      ← identities_evaluateAllItems h.2 type]
    simp only [bind_assoc, pure_bind, List.map_append]

end

/-- The items of an expression have the entries of its text as their identities, in order, and
where one of the two lists cannot be made, the other one fails with the same error. -/
theorem items_agree_with_entries (h : Listable ctx e) (type : String) :
    (∃ items, e.evaluateItems ctx type = .ok items ∧
        e.evaluateEntries ctx = .ok (items.map Item.identity)) ∨
      ∃ err, e.evaluateItems ctx type = .error err ∧ e.evaluateEntries ctx = .error err := by
  rw [← identities_evaluateItems h type]
  cases e.evaluateItems ctx type with
  | ok items => exact .inl ⟨items, rfl, rfl⟩
  | error err => exact .inr ⟨err, rfl, rfl⟩

/-- A reference, a projection that leaves one of its two sources out, and a text: three items. -/
theorem items_agree_with_entries_sources :
    let ctx : Context := { linkedSource with
      env := linkedSource.env.addItem ⟨"Compile", "b.cs", []⟩ }
    let e : Expr := .list [.projection "Compile" [.metadata "Link"], .concat [.items "Compile"],
      .quoted " c.cs;"]
    e.evaluateEntries ctx = .ok ["a", "a.cs", "b.cs", "c.cs"] ∧
      ∃ items, e.evaluateItems ctx "Out" = .ok items ∧
        items.map Item.identity = ["a", "a.cs", "b.cs", "c.cs"] := by
  intro ctx e
  have hsources : ctx.env.items "Compile" =
      [⟨"Compile", "a.cs", [("Link", "a")]⟩, ⟨"Compile", "b.cs", []⟩] := by
    decide +kernel
  have hreference : Listable ctx (.items "Compile") := by
    refine listable_of_children nofun ?_ nofun
    rintro n ⟨⟩
    rw [hsources]
    decide
  have hlink : Listable ctx (.metadata "Link") := listable_of_children nofun nofun nofun
  have hprojection : Listable ctx (.projection "Compile" [.metadata "Link"]) := by
    refine listable_of_children (by simpa [children] using hlink) nofun ?_
    rintro n parts ⟨⟩
    rw [hsources, List.forall_mem_cons, List.forall_mem_singleton]
    exact ⟨fun s hs => .inr (Except.ok.inj hs ▸ by decide +kernel),
      fun s hs => .inl (Except.ok.inj hs).symm⟩
  have hsingle : Listable ctx (.concat [.items "Compile"]) :=
    listable_of_children (by simpa [children] using hreference) nofun nofun
  have htext : Listable ctx (.quoted " c.cs;") := listable_of_children nofun nofun nofun
  have hlistable : Listable ctx e :=
    listable_of_children (by simpa [e, children] using ⟨hprojection, hsingle, htext⟩) nofun nofun
  have hentries : e.evaluateEntries ctx = .ok ["a", "a.cs", "b.cs", "c.cs"] := by decide +kernel
  refine ⟨hentries, ?_⟩
  -- The entries are known, so the theorem's second case, an error, is excluded.
  rcases items_agree_with_entries hlistable "Out" with ⟨items, hitems, hsame⟩ | ⟨err, -, herr⟩
  · rw [hentries] at hsame
    exact ⟨items, hitems, (Except.ok.inj hsame).symm⟩
  · rw [hentries] at herr
    cases herr

end BuildEngine.Expr
