import BuildEngine.Expr.Eval
import BuildEngine.Proofs.Expr.Occurrence
import BuildEngine.Proofs.Fallible

/-!
# What evaluation errors name

An evaluation error names an expression and its value, or a metadata name. The expression is the
condition itself or an operand of an operator somewhere inside, and where that operator is met it
has just that value (`condition_errors_name_culprits`). Inside a projection operators are met once
for each item (`MetAt`); metadata that is mentioned inside a projection always has an item, so the
name of an error stands outside of all projections (`OccursOutside`).
-/

namespace BuildEngine

/-! ## Errors of operators -/

namespace BinaryOp

/-- Whether an operator needs two truth values. -/
def IsLogical (op : BinaryOp) : Prop :=
  op = .and ∨ op = .or

/-- Whether an operator needs two numbers. -/
def IsRelational (op : BinaryOp) : Prop :=
  op = .less ∨ op = .lessOrEqual ∨ op = .greater ∨ op = .greaterOrEqual

end BinaryOp

variable {v : Value} {e l r : Expr} {err : EvalError} {op : BinaryOp}
  {left right : Except EvalError Value}

/-- A value fails to be a truth value if it is text that spells none. -/
theorem Value.asTruth_eq_error_iff :
    v.asTruth e = .error err ↔ ∃ s, v = .text s ∧ truth? s = none ∧ err = .notABoolean e s := by
  cases v with
  | truth b => exact iff_of_false nofun (by simp)
  | text s =>
    rw [Value.asTruth]
    cases h : truth? s <;> simp [h, eq_comm]

/-- A value fails to be a number if its text spells none. -/
theorem Value.asNumber_eq_error_iff :
    v.asNumber e = .error err ↔
      Text.number? v.toText = none ∧ err = .notANumber e v.toText := by
  rw [Value.asNumber]
  cases Text.number? v.toText <;> simp [eq_comm]

/-- Why an operator with operands `l` and `r` fails. -/
inductive BinaryOp.Fails (op : BinaryOp) (l r : Expr) (left right : Except EvalError Value) :
    EvalError → Prop
  | left {err : EvalError} : left = .error err → op.Fails l r left right err
  | right {err : EvalError} : right = .error err → op.Fails l r left right err
  | notABoolean {e : Expr} {s : String} : op.IsLogical →
    e = l ∧ left = .ok (.text s) ∨ e = r ∧ right = .ok (.text s) → truth? s = none →
    op.Fails l r left right (.notABoolean e s)
  | notANumber {e : Expr} {v : Value} : op.IsRelational →
    e = l ∧ left = .ok v ∨ e = r ∧ right = .ok v → Text.number? v.toText = none →
    op.Fails l r left right (.notANumber e v.toText)

/-- Two operands are converted one after the other, so an error is that of an operand or says that
its value cannot be converted. -/
theorem exists_of_convert_eq_error {β : Type} {convert : Expr → Value → Except EvalError β}
    {combine : β → β → Bool}
    (h : (do
      let a ← convert l (← left)
      let b ← convert r (← right)
      return combine a b) = .error err) :
    left = .error err ∨ right = .error err ∨ ∃ e v, (e = l ∧ left = .ok v ∨ e = r ∧ right = .ok v) ∧
      convert e v = .error err := by
  -- The operands are evaluated and converted in turn, left before right; the first failure is the
  -- result.
  rcases bind_eq_error_iff.1 h with hleft | ⟨v, hleft, h⟩
  · exact .inl hleft
  rcases bind_eq_error_iff.1 h with hv | ⟨a, -, h⟩
  · exact .inr (.inr ⟨l, v, .inl ⟨rfl, hleft⟩, hv⟩)
  rcases bind_eq_error_iff.1 h with hright | ⟨w, hright, h⟩
  · exact .inr (.inl hright)
  rcases bind_eq_error_iff.1 h with hw | ⟨b, -, h⟩
  · exact .inr (.inr ⟨r, w, .inr ⟨rfl, hright⟩, hw⟩)
  · cases h

/-- How the operands of a logical operator fail. -/
theorem BinaryOp.fails_of_logical (hop : op.IsLogical) {combine : Bool → Bool → Bool}
    (h : (do
      let a ← (← left).asTruth l
      let b ← (← right).asTruth r
      return combine a b) = .error err) : op.Fails l r left right err := by
  rcases exists_of_convert_eq_error h with hleft | hright | ⟨e, v, hoperand, hv⟩
  · exact .left hleft
  · exact .right hright
  · obtain ⟨s, rfl, hs, rfl⟩ := Value.asTruth_eq_error_iff.1 hv
    exact .notABoolean hop hoperand hs

/-- How the operands of a relational operator fail. -/
theorem BinaryOp.fails_of_relational (hop : op.IsRelational) {combine : Float → Float → Bool}
    (h : (do
      let x ← (← left).asNumber l
      let y ← (← right).asNumber r
      return combine x y) = .error err) : op.Fails l r left right err := by
  rcases exists_of_convert_eq_error h with hleft | hright | ⟨e, v, hoperand, hv⟩
  · exact .left hleft
  · exact .right hright
  · obtain ⟨hnumber, rfl⟩ := Value.asNumber_eq_error_iff.1 hv
    exact .notANumber hop hoperand hnumber

/-- A comparison fails only with an operand that cannot be evaluated. -/
theorem BinaryOp.fails_of_comparison {combine : Value → Value → Bool}
    (h : (do
      let a ← left
      let b ← right
      return combine a b) = .error err) : op.Fails l r left right err := by
  rcases bind_eq_error_iff.1 h with hleft | ⟨v, -, h⟩
  · exact .left hleft
  rcases bind_eq_error_iff.1 h with hright | ⟨w, -, h⟩
  · exact .right hright
  · cases h

/-- Whatever operator fails, one of its operands is the reason. -/
theorem BinaryOp.fails_of_apply_eq_error (h : op.apply l r left right = .error err) :
    op.Fails l r left right err := by
  cases op with
  | and => exact fails_of_logical (.inl rfl) h
  | or => exact fails_of_logical (.inr rfl) h
  | equals | notEquals => exact fails_of_comparison h
  | less => exact fails_of_relational (.inl rfl) h
  | lessOrEqual => exact fails_of_relational (.inr (.inl rfl)) h
  | greater => exact fails_of_relational (.inr (.inr (.inl rfl))) h
  | greaterOrEqual => exact fails_of_relational (.inr (.inr (.inr rfl))) h

namespace Expr

variable {s f : Expr} {parts es : List Expr} {ctx place : Context} {n : String} {item : Item}

/-! ## Where expressions are met -/

/-- An expression occurs in another one outside of all its projections. -/
inductive OccursOutside (s : Expr) : Expr → Prop
  | self : OccursOutside s s
  | inside {e f : Expr} : (∀ n parts, e ≠ .projection n parts) → f ∈ e.children →
    OccursOutside s f → OccursOutside s e

/-- An expression is met in `place` while another one is evaluated in a context: inside of a
projection there is a place for each item, otherwise the place is the context itself. -/
inductive MetAt (s : Expr) (place : Context) : Expr → Context → Prop
  | self : MetAt s place s place
  | inside {e f : Expr} {ctx : Context} : (∀ n parts, e ≠ .projection n parts) → f ∈ e.children →
    MetAt s place f ctx → MetAt s place e ctx
  | projected {n : String} {parts : List Expr} {f : Expr} {ctx : Context} {item : Item} :
    f ∈ parts → item ∈ ctx.env.items n → MetAt s place f { ctx with item := some item } →
    MetAt s place (.projection n parts) ctx

/-- What is met somewhere occurs in the expression. -/
theorem MetAt.occurs (h : MetAt s place e ctx) : Occurs s e := by
  induction h with
  | self => exact .self
  | inside _ hf _ ih => exact .inside hf ih
  | projected hf _ _ ih => exact .inside hf ih

/-- An operand of an operator of some kind that is met in `place`. -/
def IsOperandAt (IsKind : BinaryOp → Prop) (s : Expr) (place : Context) (e : Expr) (ctx : Context) :
    Prop :=
  ∃ op l r, IsKind op ∧ (s = l ∨ s = r) ∧ MetAt (.binary op l r) place e ctx

/-- An operand that is met inside an expression is met inside the one around it. -/
theorem IsOperandAt.mono {IsKind : BinaryOp → Prop} {ctx' : Context}
    (h : IsOperandAt IsKind s place f ctx')
    (hmet : ∀ {s}, MetAt s place f ctx' → MetAt s place e ctx) :
    IsOperandAt IsKind s place e ctx := by
  obtain ⟨op, l, r, hop, hs, h⟩ := h
  exact ⟨op, l, r, hop, hs, hmet h⟩

/-- An operand that is met occurs. -/
theorem IsOperandAt.occurs {IsKind : BinaryOp → Prop} (h : IsOperandAt IsKind s place e ctx) :
    Occurs s e := by
  obtain ⟨op, l, r, -, hs, hmet⟩ := h
  refine .trans (occurs_of_mem_children ?_) hmet.occurs
  rcases hs with rfl | rfl
  · exact List.mem_cons_self
  · exact List.mem_cons_of_mem _ List.mem_cons_self

/-- What an error says about the expression that was evaluated. -/
def Blames (e : Expr) (ctx : Context) : EvalError → Prop
  | .notABoolean s value => ∃ place, IsOperandAt BinaryOp.IsLogical s place e ctx ∧
      s.evaluate place = .ok (.text value) ∧ truth? value = none
  | .notANumber s value => ∃ place v, IsOperandAt BinaryOp.IsRelational s place e ctx ∧
      s.evaluate place = .ok v ∧ v.toText = value ∧ Text.number? value = none
  | .metadataOutsideItem name => OccursOutside (.metadata name) e ∧ ctx.item = none

/-- What is blamed in a child is blamed in the expression, unless that is a projection. -/
theorem Blames.inside (h : Blames f ctx err) (he : ∀ n parts, e ≠ .projection n parts)
    (hf : f ∈ e.children) : Blames e ctx err := by
  cases err with
  | notABoolean s value =>
    obtain ⟨place, hoperand, hvalue⟩ := h
    exact ⟨place, hoperand.mono (.inside he hf), hvalue⟩
  | notANumber s value =>
    obtain ⟨place, v, hoperand, hvalue⟩ := h
    exact ⟨place, v, hoperand.mono (.inside he hf), hvalue⟩
  | metadataOutsideItem name => exact ⟨.inside he hf h.1, h.2⟩

/-- What is blamed in a part of a projection, for one of the items, is blamed in the projection. -/
theorem Blames.projected (h : Blames f { ctx with item := some item } err) (hf : f ∈ parts)
    (hitem : item ∈ ctx.env.items n) : Blames (.projection n parts) ctx err := by
  cases err with
  | notABoolean s value =>
    obtain ⟨place, hoperand, hvalue⟩ := h
    exact ⟨place, hoperand.mono (.projected hf hitem), hvalue⟩
  | notANumber s value =>
    obtain ⟨place, v, hoperand, hvalue⟩ := h
    exact ⟨place, v, hoperand.mono (.projected hf hitem), hvalue⟩
  | metadataOutsideItem name =>
    -- Inside of a projection there is an item.
    cases h.2

/-- The failure of an operator blames an operand, or what an operand blames. -/
theorem blames_of_fails (h : op.Fails l r (l.evaluate ctx) (r.evaluate ctx) err)
    (hl : l.evaluate ctx = .error err → Blames l ctx err)
    (hr : r.evaluate ctx = .error err → Blames r ctx err) : Blames (.binary op l r) ctx err := by
  -- The error comes from inside an operand, or an operand has not the kind that is asked for.
  cases h with
  | left h => exact (hl h).inside nofun List.mem_cons_self
  | right h => exact (hr h).inside nofun (List.mem_cons_of_mem _ List.mem_cons_self)
  | @notABoolean s value hop hoperand hvalue =>
    rcases hoperand with ⟨rfl, h⟩ | ⟨rfl, h⟩
    · exact ⟨ctx, ⟨op, s, r, hop, .inl rfl, .self⟩, h, hvalue⟩
    · exact ⟨ctx, ⟨op, l, s, hop, .inr rfl, .self⟩, h, hvalue⟩
  | @notANumber s v hop hoperand hvalue =>
    rcases hoperand with ⟨rfl, h⟩ | ⟨rfl, h⟩
    · exact ⟨ctx, v, ⟨op, s, r, hop, .inl rfl, .self⟩, h, rfl, hvalue⟩
    · exact ⟨ctx, v, ⟨op, l, s, hop, .inr rfl, .self⟩, h, rfl, hvalue⟩

-- Operators and metadata make errors; all other expressions pass on the error of a child.
mutual

/-- Whatever fails to be evaluated blames something that occurs in it. -/
theorem blames_of_evaluate : ∀ {e : Expr} {ctx : Context},
    e.evaluate ctx = .error err → Blames e ctx err
  | .literal _, ctx, h | .quoted _, ctx, h | .property _, ctx, h | .items _, ctx, h => by
    rw [evaluate] at h
    cases h
  | .metadata n, ctx, h => by
    rw [evaluate] at h
    split at h
    · cases h
    · next hitem =>
      cases h
      exact ⟨.self, hitem⟩
  | .projection n parts, ctx, h => by
    -- Only a part can fail, and it is evaluated once for each item.
    rw [evaluate] at h
    rcases bind_eq_error_iff.1 h with h | ⟨texts, -, h⟩
    · -- The first item for which a part fails is the one that the error is about.
      obtain ⟨before, item, behind, hitems, -, h⟩ := mapM_eq_error_iff.1 h
      have hitem : item ∈ ctx.env.items n := hitems ▸ List.mem_append_right _ List.mem_cons_self
      rcases bind_eq_error_iff.1 h with h | ⟨texts, -, h⟩
      · obtain ⟨f, hf, hblames⟩ := exists_blames_of_evaluateAll h
        exact hblames.projected hf hitem
      · cases h
    · cases h
  | .concat parts, ctx, h | .list parts, ctx, h => by
    rw [evaluate] at h
    rcases bind_eq_error_iff.1 h with h | ⟨texts, -, h⟩
    · obtain ⟨f, hf, hblames⟩ := exists_blames_of_evaluateAll h
      exact hblames.inside nofun hf
    · cases h
  | .not f, ctx, h | .call _ f, ctx, h => by
    rw [evaluate] at h
    rcases bind_eq_error_iff.1 h with h | ⟨v, -, h⟩
    · exact (blames_of_evaluate h).inside nofun List.mem_cons_self
    · cases h
  | .binary op l r, ctx, h => by
    rw [evaluate] at h
    rcases bind_eq_error_iff.1 h with h | ⟨b, -, h⟩
    · exact blames_of_fails (op.fails_of_apply_eq_error h) blames_of_evaluate blames_of_evaluate
    · cases h

/-- If parts fail to be evaluated, one of them is blamed. -/
theorem exists_blames_of_evaluateAll : ∀ {es : List Expr} {ctx : Context},
    evaluateAll es ctx = .error err → ∃ f ∈ es, Blames f ctx err
  | [], ctx, h => by
    rw [evaluateAll] at h
    cases h
  | e :: es, ctx, h => by
    rw [evaluateAll] at h
    rcases bind_eq_error_iff.1 h with h | ⟨v, -, h⟩
    · exact ⟨e, List.mem_cons_self, blames_of_evaluate h⟩
    rcases bind_eq_error_iff.1 h with h | ⟨texts, -, h⟩
    · obtain ⟨f, hf, hblames⟩ := exists_blames_of_evaluateAll h
      exact ⟨f, List.mem_cons_of_mem _ hf, hblames⟩
    · cases h

end

/-- An error of a condition names its culprit. A text that is no truth value is that of the
condition itself or of an operand of `AND` or `OR`, and a text that is no number that of an operand
of a relational operator, evaluated where the operator is met. Metadata that is reported is
mentioned outside of all projections, and there is no item. -/
theorem condition_errors_name_culprits (e : Expr) (ctx : Context) :
    (∀ s value, e.evaluateCondition ctx = .error (.notABoolean s value) →
      Occurs s e ∧ ∃ place,
        (s = e ∧ place = ctx ∨ IsOperandAt BinaryOp.IsLogical s place e ctx) ∧
          s.evaluate place = .ok (.text value) ∧ truth? value = none) ∧
      (∀ s value, e.evaluateCondition ctx = .error (.notANumber s value) →
        Occurs s e ∧ ∃ place v, IsOperandAt BinaryOp.IsRelational s place e ctx ∧
          s.evaluate place = .ok v ∧ v.toText = value ∧ Text.number? value = none) ∧
        ∀ name, e.evaluateCondition ctx = .error (.metadataOutsideItem name) →
          OccursOutside (.metadata name) e ∧ ctx.item = none := by
  -- The condition fails inside the tree, or its value is no truth value.
  have herror {err : EvalError} (h : e.evaluateCondition ctx = .error err) :
      Blames e ctx err ∨ ∃ value, e.evaluate ctx = .ok (.text value) ∧ truth? value = none ∧
        err = .notABoolean e value := by
    rcases bind_eq_error_iff.1 h with h | ⟨v, hv, h⟩
    · exact .inl (blames_of_evaluate h)
    · obtain ⟨value, rfl, hvalue, herr⟩ := Value.asTruth_eq_error_iff.1 h
      exact .inr ⟨value, hv, hvalue, herr⟩
  refine ⟨fun s value h => ?_, fun s value h => ?_, fun name h => ?_⟩
  · rcases herror h with ⟨place, hoperand, hvalue⟩ | ⟨_, hvalue, htruth, ⟨⟩⟩
    · exact ⟨hoperand.occurs, place, .inr hoperand, hvalue⟩
    · exact ⟨.self, ctx, .inl ⟨rfl, rfl⟩, hvalue, htruth⟩
  · rcases herror h with ⟨place, v, hoperand, hvalue⟩ | ⟨_, _, _, ⟨⟩⟩
    exact ⟨hoperand.occurs, place, v, hoperand, hvalue⟩
  · rcases herror h with hblames | ⟨_, _, _, ⟨⟩⟩
    exact hblames

/-- A source whose size is no number, and no item to take metadata from. -/
def unsizedContext : Context where
  env := Environment.empty.addItem ⟨"Compile", "a.cs", [("Size", "big")]⟩
  files := .memory (.empty ⟨"/p"⟩ [])
  base := ⟨"/p"⟩
  item := none

/-- Whether the sources are small. -/
def smallSources : Expr :=
  .projection "Compile" [.binary .less (.metadata "Size") (.literal "3")]

/-- Whether there is a link, asked for where no item is. -/
def linkOrTrue : Expr :=
  .binary .or (.literal "true") (.metadata "Link")

/-- The size is found where the projection comes to its item. -/
theorem condition_errors_name_culprits_size :
    smallSources.evaluateCondition unsizedContext = .error (.notANumber (.metadata "Size") "big") ∧
      (∃ place v,
        IsOperandAt BinaryOp.IsRelational (.metadata "Size") place smallSources unsizedContext ∧
          (Expr.metadata "Size").evaluate place = .ok v ∧ v.toText = "big") ∧
        linkOrTrue.evaluateCondition unsizedContext = .error (.metadataOutsideItem "Link") ∧
          OccursOutside (.metadata "Link") linkOrTrue := by
  have hsize : smallSources.evaluateCondition unsizedContext =
    .error (.notANumber (.metadata "Size") "big") := by rfl
  have hlink : linkOrTrue.evaluateCondition unsizedContext =
    .error (.metadataOutsideItem "Link") := by rfl
  obtain ⟨-, place, v, hoperand, hv, htext, -⟩ :=
    (condition_errors_name_culprits smallSources unsizedContext).2.1 _ _ hsize
  exact ⟨hsize, ⟨place, v, hoperand, hv, htext⟩, hlink,
    ((condition_errors_name_culprits linkOrTrue unsizedContext).2.2 _ hlink).1⟩

end Expr

end BuildEngine
