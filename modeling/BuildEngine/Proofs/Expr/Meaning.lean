import BuildEngine.Expr.Eval
import BuildEngine.Expr.Normalize

/-!
# The normal form has the same meaning

An expression and its normal form have the same value in every context, or fail for the same
cause; only the expression that an error names may be another one. Everything that looks at
several parts is said by `gather`, which joins what the texts of the parts contribute: a
concatenation gathers the texts themselves, a list gathers them with a `;` in front of each, so
that flattening is the law of appending for both.
-/

namespace BuildEngine

/-- Why an expression has no meaning, whichever expression is named for it. -/
inductive EvalError.Cause where
  | notABoolean (value : String)
  | notANumber (value : String)
  | metadataOutsideItem (name : String)
deriving DecidableEq, Repr

/-- The cause of an evaluation error. -/
def EvalError.cause : EvalError → Cause
  | notABoolean _ value => .notABoolean value
  | notANumber _ value => .notANumber value
  | metadataOutsideItem name => .metadataOutsideItem name

namespace Expr

variable {α β : Type} {e e' : Expr} {ctx : Context} {φ : String → String}

/-! ## Outcomes -/

/-- What an evaluation comes to: its value, or the cause of its failure. -/
def outcome (x : Except EvalError α) : Except EvalError.Cause α :=
  x.mapError EvalError.cause

/-- A value comes to itself. -/
theorem outcome_ok (a : α) : outcome (.ok a) = .ok a :=
  rfl

/-- An error comes to its cause. -/
theorem outcome_error (e : EvalError) : outcome (.error e : Except EvalError α) = .error e.cause :=
  rfl

/-- A value that is returned comes to itself. -/
@[simp]
theorem outcome_pure (a : α) : outcome (pure a) = pure a :=
  rfl

/-- What two steps come to is told by what each comes to. -/
@[simp]
theorem outcome_bind (x : Except EvalError α) (f : α → Except EvalError β) :
    outcome (x >>= f) = outcome x >>= fun a => outcome (f a) := by
  cases x <;> rfl

/-- What is done with a value does not matter to causes. -/
@[simp]
theorem outcome_map (x : Except EvalError α) (f : α → β) :
    outcome (f <$> x) = f <$> outcome x := by
  cases x <;> rfl

/-- What a list of steps comes to is told by what each comes to. -/
theorem outcome_mapM (xs : List β) (f : β → Except EvalError α) :
    outcome (xs.mapM f) = xs.mapM fun x => outcome (f x) := by
  induction xs with
  | nil => rfl
  | cons x xs ih => simp [List.mapM_cons, ih]

/-- The cause of a failed conversion does not depend on the expression that is named. -/
theorem outcome_asTruth (v : Value) (e e' : Expr) :
    outcome (v.asTruth e) = outcome (v.asTruth e') := by
  cases v with
  | truth b => rfl
  | text s => cases h : truth? s <;> simp [Value.asTruth, h, outcome_error, EvalError.cause]

/-- Whichever expression is named for it, a value that is no number has one cause. -/
theorem outcome_asNumber (v : Value) (e e' : Expr) :
    outcome (v.asNumber e) = outcome (v.asNumber e') := by
  cases h : Text.number? v.toText <;> simp [Value.asNumber, h, outcome_error, EvalError.cause]

/-- An operator comes to the same for operands that come to the same. -/
theorem outcome_apply (op : BinaryOp) {l l' r r' : Expr} {x x' y y' : Except EvalError Value}
    (hx : outcome x = outcome x') (hy : outcome y = outcome y') :
    outcome (op.apply l r x y) = outcome (op.apply l' r' x' y') := by
  cases op <;>
    simp only [BinaryOp.apply, outcome_bind, outcome_pure, hx, hy, outcome_asTruth _ l l',
      outcome_asTruth _ r r', outcome_asNumber _ l l', outcome_asNumber _ r r']

/-! ## What parts contribute -/

/-- What the texts of expressions contribute, one after the other. -/
def gather (φ : String → String) (es : List Expr) (ctx : Context) : Except EvalError String := do
  return String.join ((← evaluateAll es ctx).map φ)

/-- Nothing contributes nothing. -/
theorem gather_nil : gather φ [] ctx = pure "" :=
  rfl

/-- The first expression contributes first. -/
theorem gather_cons (es : List Expr) :
    gather φ (e :: es) ctx = do return φ (← e.evaluateText ctx) ++ (← gather φ es ctx) := by
  simp [gather, evaluateAll, evaluateText]

/-- One expression contributes its text. -/
theorem gather_singleton : gather φ [e] ctx = do return φ (← e.evaluateText ctx) := by
  simp only [gather_cons, gather_nil, pure_bind, String.append_empty]

/-- What stands in front contributes first. -/
theorem gather_append (es fs : List Expr) :
    gather φ (es ++ fs) ctx = do return (← gather φ es ctx) ++ (← gather φ fs ctx) := by
  induction es with
  | nil => simp only [List.nil_append, gather_nil, pure_bind, String.empty_append, bind_pure]
  | cons e es ih =>
    simp only [List.cons_append, gather_cons, ih, bind_assoc, pure_bind, String.append_assoc]

/-! ## Concatenations -/

/-- The text of a text is itself. -/
theorem evaluateText_quoted (s : String) : (Expr.quoted s).evaluateText ctx = pure s :=
  rfl

/-- The value of a concatenation is the text that its parts contribute. -/
theorem evaluate_concat (parts : List Expr) :
    (Expr.concat parts).evaluate ctx = do return .text (← gather id parts ctx) := by
  simp [evaluate, gather]

/-- The text of a concatenation is what its parts contribute. -/
theorem evaluateText_concat (parts : List Expr) :
    (Expr.concat parts).evaluateText ctx = gather id parts ctx := by
  simp [evaluateText, evaluate_concat, Value.toText]

/-- Every item is projected by joining the parts. -/
theorem evaluate_projection (n : String) (parts : List Expr) :
    (Expr.projection n parts).evaluate ctx = do
      let texts ← (ctx.env.items n).mapM fun item =>
        gather id parts { ctx with item := some item }
      return .text (Text.joinEntries (texts.filter (· ≠ ""))) := by
  simp [evaluate, gather]

/-- Plain text means itself. -/
theorem evaluateText_of_plainText? {s : String} (h : e.plainText? = some s) :
    e.evaluateText ctx = pure s := by
  cases e <;> simp only [plainText?, Option.some.injEq, reduceCtorEq] at h
  all_goals subst h; rfl

/-- A text that is joined to what follows contributes as it did by itself. -/
theorem gather_consText (s : String) (parts : List Expr) :
    gather id (consText s parts) ctx = do return s ++ (← gather id parts ctx) := by
  unfold consText
  split <;>
    simp only [gather_cons, evaluateText_quoted, pure_bind, bind_assoc, id, String.append_assoc]

/-- Joining texts that stand together changes nothing of what is contributed. -/
theorem gather_fuse (parts : List Expr) :
    gather id (fuse parts) ctx = gather id parts ctx := by
  induction parts with
  | nil => rfl
  | cons part parts ih =>
    unfold fuse
    split
    · next s h =>
      simp only [gather_consText, gather_cons, evaluateText_of_plainText? h, pure_bind, ih, id]
    · simp only [gather_cons, ih]

/-- What a concatenation is normalized to has the value of the concatenation. -/
theorem evaluate_ofParts (parts : List Expr) :
    (ofParts parts).evaluate ctx = do return .text (← gather id parts ctx) := by
  unfold ofParts
  split
  · rfl
  · rfl
  · rfl
  · exact evaluate_concat parts

/-- The parts of a concatenation contribute what the concatenation did. -/
theorem gather_spliceParts (e : Expr) (ctx : Context) :
    gather id (spliceParts e) ctx = e.evaluateText ctx := by
  unfold spliceParts
  split
  · exact (evaluateText_concat _).symm
  · simp only [gather_singleton, id, bind_pure]

/-! ## Lists -/

/-- An entry of a list text with the separator in front of it. -/
def separated (s : String) : String :=
  ";" ++ s

/-- A text without its first character. -/
def behindFirst (s : String) : String :=
  String.ofList s.toList.tail

/-- Behind the separator stands the entry. -/
theorem behindFirst_separated (s : String) : behindFirst (separated s) = s := by
  simp [behindFirst, separated]

/-- A list text with a separator in front is its entries with a separator in front of each. -/
theorem separated_joinEntries {texts : List String} (h : texts ≠ []) :
    separated (Text.joinEntries texts) = String.join (texts.map separated) := by
  induction texts with
  | nil => contradiction
  | cons s texts ih =>
    cases texts with
    | nil => simp [Text.joinEntries]
    | cons t texts =>
      rw [List.map_cons, String.join_cons, ← ih (List.cons_ne_nil t texts)]
      simp [Text.joinEntries, separated, String.intercalate_cons_cons, String.append_assoc]

/-- Joined entries are those with a separator each, but for the first separator. -/
theorem joinEntries_eq_behindFirst (texts : List String) :
    Text.joinEntries texts = behindFirst (String.join (texts.map separated)) := by
  cases texts with
  | nil => rfl
  | cons s texts =>
    rw [← separated_joinEntries (List.cons_ne_nil s texts), behindFirst_separated]

/-- The value of a list is what its elements contribute with a separator each, but for the first
separator. -/
theorem evaluate_list (elements : List Expr) :
    (Expr.list elements).evaluate ctx =
      do return .text (behindFirst (← gather separated elements ctx)) := by
  simp [evaluate, gather, joinEntries_eq_behindFirst]

/-- The texts of a list that is not empty begin with a separator when each has one in front. -/
theorem gather_separated_cons (elements : List Expr) :
    gather separated (e :: elements) ctx =
      do return separated (← (Expr.list (e :: elements)).evaluateText ctx) := by
  have hfirst (s t : String) : separated (behindFirst (separated s ++ t)) = separated s ++ t := by
    have happend : separated s ++ t = separated (s ++ t) := String.append_assoc
    rw [happend, behindFirst_separated]
  simp only [evaluateText, evaluate_list, gather_cons, bind_assoc, pure_bind, Value.toText, hfirst]

/-- What a list is replaced by inside of another list fills the same place. -/
theorem gather_spliceElements (e : Expr) (ctx : Context) :
    gather separated (spliceElements e) ctx = do return separated (← e.evaluateText ctx) := by
  unfold spliceElements
  split
  · rfl
  · next inner h =>
    obtain ⟨e, elements, rfl⟩ := List.exists_cons_of_ne_nil h
    exact gather_separated_cons elements
  · exact gather_singleton

/-! ## The normal form -/

/-- What has the same value has the same text. -/
theorem outcome_evaluateText (h : outcome (e.evaluate ctx) = outcome (e'.evaluate ctx)) :
    outcome (e.evaluateText ctx) = outcome (e'.evaluateText ctx) := by
  simp only [evaluateText, outcome_bind, h]

mutual

/-- An expression and its normal form have the same value, or fail for the same cause. -/
theorem outcome_evaluate_normalize :
    ∀ (e : Expr) (ctx : Context),
      outcome ((normalize e).evaluate ctx) = outcome (e.evaluate ctx)
  -- Leaves are normal; everywhere else the operands are replaced by their normal forms.
  | .literal _, _ | .quoted _, _ | .property _, _ | .metadata _, _ | .items _, _ => rfl
  | .concat parts, ctx => by
    simp only [normalize, evaluate_ofParts, evaluate_concat, gather_fuse, outcome_bind,
      outcome_gather_normalizeParts parts ctx]
  | .list elements, ctx => by
    simp only [normalize, evaluate_list, outcome_bind,
      outcome_gather_normalizeElements elements ctx]
  | .projection n parts, ctx => by
    simp only [normalize, evaluate_projection, gather_fuse, outcome_bind, outcome_mapM,
      outcome_gather_normalizeParts parts]
  | .not e, ctx => by
    simp only [normalize, evaluate, outcome_bind, outcome_evaluate_normalize e ctx]
  | .binary op l r, ctx => by
    simp only [normalize, evaluate, outcome_bind]
    rw [outcome_apply op (outcome_evaluate_normalize l ctx) (outcome_evaluate_normalize r ctx)]
  | .call f e, ctx => by
    simp only [normalize, evaluate, outcome_bind, outcome_evaluate_normalize e ctx]

/-- Normalized parts contribute what the parts did. -/
theorem outcome_gather_normalizeParts :
    ∀ (parts : List Expr) (ctx : Context),
      outcome (gather id (normalizeParts parts) ctx) = outcome (gather id parts ctx)
  | [], _ => rfl
  | part :: parts, ctx => by
    simp only [normalizeParts, gather_append, gather_spliceParts, gather_cons, outcome_bind, id,
      outcome_evaluateText (outcome_evaluate_normalize part ctx),
      outcome_gather_normalizeParts parts ctx]

/-- Normalized elements contribute what the elements did. -/
theorem outcome_gather_normalizeElements :
    ∀ (elements : List Expr) (ctx : Context),
      outcome (gather separated (normalizeElements elements) ctx) =
        outcome (gather separated elements ctx)
  | [], _ => rfl
  | element :: elements, ctx => by
    simp only [normalizeElements, gather_append, gather_spliceElements, gather_cons, outcome_bind,
      outcome_evaluateText (outcome_evaluate_normalize element ctx), outcome_pure, bind_assoc,
      pure_bind, outcome_gather_normalizeElements elements ctx]

end

/-- Evaluations that come to the same have the same value, or fail for the same cause. -/
theorem outcome_eq_iff {x y : Except EvalError α} :
    outcome x = outcome y ↔
      (∃ a, x = .ok a ∧ y = .ok a) ∨
        ∃ e f, x = .error e ∧ y = .error f ∧ e.cause = f.cause := by
  cases x <;> cases y <;> simp [outcome_ok, outcome_error, eq_comm]

/-- Bringing an expression into its normal form changes nothing but the expressions that errors
name: both have the same value, or fail for the same cause. -/
theorem normalize_keeps_meaning (e : Expr) (ctx : Context) :
    (∃ v, (normalize e).evaluate ctx = .ok v ∧ e.evaluate ctx = .ok v) ∨
      ∃ err err', (normalize e).evaluate ctx = .error err ∧ e.evaluate ctx = .error err' ∧
        err.cause = err'.cause :=
  outcome_eq_iff.1 (outcome_evaluate_normalize e ctx)

end Expr

end BuildEngine
