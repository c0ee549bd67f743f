import BuildEngine.Expr.Normalize
import Mathlib.Data.List.Chain

/-!
# Normal expressions

What a normal form looks like is said by `IsNormal`, without normalizing anything: a concatenation
holds no other one and no text beside text, a list holds no other list, and the same goes for
everything inside. The normal form of every expression is of this kind (`isNormal_normalize`), and
expressions of this kind are left as they are (`IsNormal.normalize_eq`), so normalizing twice is
normalizing once.
-/

namespace BuildEngine.Expr

variable {e f : Expr} {parts elements : List Expr} {s : String}

/-- A part that can stay as it is in a concatenation: neither text without quotes nor another
concatenation. -/
def IsPart (e : Expr) : Prop :=
  (∀ s, e ≠ .literal s) ∧ ∀ parts, e ≠ .concat parts

/-- Parts among which nothing is left to flatten or to join. -/
structure Joined (parts : List Expr) : Prop where
  /-- Every part can stay. -/
  isPart : ∀ e ∈ parts, IsPart e
  /-- No two pieces of text stand side by side. -/
  apart : parts.IsChain fun e f => e.plainText? = none ∨ f.plainText? = none

/-- Parts that no single expression stands for. -/
structure Compound (parts : List Expr) : Prop where
  ne_nil : parts ≠ []
  ne_quoted : ∀ s, parts ≠ [.quoted s]
  ne_property : ∀ n, parts ≠ [.property n]

/-- Expressions in which there is nothing to flatten, to join or to take out of a concatenation. -/
inductive IsNormal : Expr → Prop
  | literal (s : String) : IsNormal (.literal s)
  | quoted (s : String) : IsNormal (.quoted s)
  | property (n : String) : IsNormal (.property n)
  | metadata (n : String) : IsNormal (.metadata n)
  | items (n : String) : IsNormal (.items n)
  | projection {n : String} {parts : List Expr} :
    (∀ e ∈ parts, IsNormal e) → Joined parts → IsNormal (.projection n parts)
  | concat {parts : List Expr} :
    (∀ e ∈ parts, IsNormal e) → Joined parts → Compound parts → IsNormal (.concat parts)
  | list {elements : List Expr} :
    (∀ e ∈ elements, IsNormal e) → (∀ e ∈ elements, ∀ inner, e ≠ .list inner) →
      IsNormal (.list elements)
  | not {e : Expr} : IsNormal e → IsNormal (.not e)
  | binary {op : BinaryOp} {l r : Expr} : IsNormal l → IsNormal r → IsNormal (.binary op l r)
  | call {f : Builtin} {e : Expr} : IsNormal e → IsNormal (.call f e)

/-! ## Joined texts -/

/-- Only a text, with quotes or without, is plain text. -/
theorem plainText?_eq_some_iff : e.plainText? = some s ↔ e = .literal s ∨ e = .quoted s := by
  cases e <;> simp [plainText?]

/-- A part that is text is quoted. -/
theorem IsPart.eq_quoted (h : IsPart e) (hs : e.plainText? = some s) : e = .quoted s :=
  (plainText?_eq_some_iff.1 hs).resolve_left (h.1 s)

/-- A text with quotes can stay as it is. -/
theorem isPart_quoted (s : String) : IsPart (.quoted s) :=
  ⟨nofun, nofun⟩

/-- Nothing is left to join if there is nothing at the first part and nothing behind it. -/
theorem joined_cons_iff :
    Joined (e :: parts) ↔
      IsPart e ∧ (∀ f ∈ parts.head?, e.plainText? = none ∨ f.plainText? = none) ∧ Joined parts := by
  constructor
  · rintro ⟨hparts, hapart⟩
    rw [List.forall_mem_cons] at hparts
    rw [List.isChain_cons] at hapart
    exact ⟨hparts.1, hapart.1, hparts.2, hapart.2⟩
  · rintro ⟨he, hhead, hparts, hapart⟩
    exact ⟨List.forall_mem_cons.2 ⟨he, hparts⟩, List.isChain_cons.2 ⟨hhead, hapart⟩⟩

/-- A text is joined to a text behind it. -/
theorem Joined.consText (h : Joined parts) (s : String) : Joined (consText s parts) := by
  unfold Expr.consText
  split
  · next t more =>
    obtain ⟨-, hhead, hmore⟩ := joined_cons_iff.1 h
    exact joined_cons_iff.2
      ⟨isPart_quoted _, fun f hf => .inr ((hhead f hf).resolve_left nofun), hmore⟩
  · next hquoted =>
    refine joined_cons_iff.2 ⟨isPart_quoted s, fun f hf => .inr ?_, h⟩
    -- The part in front is no text, as it is not quoted.
    rw [Option.eq_none_iff_forall_ne_some]
    intro t ht
    obtain ⟨more, rfl⟩ := List.head?_eq_some_iff.1 hf
    exact hquoted t more (by rw [(h.isPart f List.mem_cons_self).eq_quoted ht])

/-- Joining texts leaves nothing to join. -/
theorem joined_fuse (h : ∀ e ∈ parts, ∀ inner, e ≠ .concat inner) : Joined (fuse parts) := by
  induction parts with
  | nil => exact ⟨nofun, .nil⟩
  | cons e parts ih =>
    rw [List.forall_mem_cons] at h
    have ih := ih h.2
    unfold fuse
    split
    · exact ih.consText _
    · next hnone =>
      refine joined_cons_iff.2 ⟨⟨?_, h.1⟩, fun _ _ => .inl hnone, ih⟩
      rintro s rfl
      cases hnone

/-- What stands among parts with a text in front is one of them or a text. -/
theorem mem_consText (h : e ∈ consText s parts) : e ∈ parts ∨ ∃ t, e = .quoted t := by
  unfold Expr.consText at h
  split at h
  · rcases List.mem_cons.1 h with rfl | h
    · exact .inr ⟨_, rfl⟩
    · exact .inl (List.mem_cons_of_mem _ h)
  · rcases List.mem_cons.1 h with rfl | h
    · exact .inr ⟨s, rfl⟩
    · exact .inl h

/-- Texts are the only parts that joining makes. -/
theorem mem_fuse (h : e ∈ fuse parts) : e ∈ parts ∨ ∃ s, e = .quoted s := by
  induction parts with
  | nil => exact .inl h
  | cons f parts ih =>
    unfold fuse at h
    split at h
    · rcases mem_consText h with h | hquoted
      · exact (ih h).imp_left (List.mem_cons_of_mem _)
      · exact .inr hquoted
    · rcases List.mem_cons.1 h with rfl | h
      · exact .inl List.mem_cons_self
      · exact (ih h).imp_left (List.mem_cons_of_mem _)

/-- Where there is nothing to join, joining changes nothing. -/
theorem Joined.fuse_eq (h : Joined parts) : fuse parts = parts := by
  -- On the parts: no two texts stand side by side, so nothing is joined.
  induction parts with
  | nil => rfl
  | cons e parts ih =>
    obtain ⟨he, hhead, hparts⟩ := joined_cons_iff.1 h
    unfold fuse
    rw [ih hparts]
    split
    · next s hs =>
      obtain rfl := he.eq_quoted hs
      unfold Expr.consText
      split
      · next t more => cases hhead _ rfl <;> contradiction
      · rfl
    · rfl

/-! ## The normal form is normal -/

/-- Joined parts make a normal expression. -/
theorem isNormal_ofParts (hnormal : ∀ e ∈ parts, IsNormal e) (hjoined : Joined parts) :
    IsNormal (ofParts parts) := by
  unfold ofParts
  split
  · exact .quoted ""
  · exact .quoted _
  · exact .property _
  · next hnil hquoted hproperty => exact .concat hnormal hjoined ⟨hnil, hquoted, hproperty⟩

/-- The parts of a normal expression are normal, and no concatenations. -/
theorem isNormal_of_mem_spliceParts (h : IsNormal e) (hf : f ∈ spliceParts e) :
    IsNormal f ∧ ∀ inner, f ≠ .concat inner := by
  unfold spliceParts at hf
  split at hf
  · cases h with
    | concat hnormal hjoined _ => exact ⟨hnormal f hf, (hjoined.isPart f hf).2⟩
  · next hconcat =>
    rw [List.mem_singleton] at hf
    subst hf
    exact ⟨h, hconcat⟩

/-- The elements of a normal expression are normal, and no lists. -/
theorem isNormal_of_mem_spliceElements (h : IsNormal e) (hf : f ∈ spliceElements e) :
    IsNormal f ∧ ∀ inner, f ≠ .list inner := by
  unfold spliceElements at hf
  split at hf
  · rw [List.mem_singleton] at hf
    subst hf
    exact ⟨.quoted "", nofun⟩
  · cases h with
    | list hnormal hlist => exact ⟨hnormal f hf, hlist f hf⟩
  · next hlist =>
    rw [List.mem_singleton] at hf
    subst hf
    exact ⟨h, hlist⟩

/-- Joined parts are normal if the parts are, and no concatenation is left among them. -/
theorem isNormal_fuse (h : ∀ e ∈ parts, IsNormal e ∧ ∀ inner, e ≠ .concat inner) :
    (∀ e ∈ fuse parts, IsNormal e) ∧ Joined (fuse parts) := by
  refine ⟨fun e he => ?_, joined_fuse fun e he => (h e he).2⟩
  rcases mem_fuse he with he | ⟨s, rfl⟩
  · exact (h e he).1
  · exact .quoted s

mutual

/-- Normalizing yields a normal expression. -/
theorem isNormal_normalize : ∀ e : Expr, IsNormal (normalize e)
  | .literal s => .literal s
  | .quoted s => .quoted s
  | .property n => .property n
  | .metadata n => .metadata n
  | .items n => .items n
  | .projection _ parts =>
    have h := isNormal_fuse (isNormal_normalizeParts parts)
    .projection h.1 h.2
  | .concat parts =>
    have h := isNormal_fuse (isNormal_normalizeParts parts)
    isNormal_ofParts h.1 h.2
  | .list elements =>
    .list (fun e he => (isNormal_normalizeElements elements e he).1)
      fun e he => (isNormal_normalizeElements elements e he).2
  | .not e => .not (isNormal_normalize e)
  | .binary _ l r => .binary (isNormal_normalize l) (isNormal_normalize r)
  | .call _ e => .call (isNormal_normalize e)

/-- Normalized parts are normal, and no concatenations. -/
theorem isNormal_normalizeParts :
    ∀ parts : List Expr, ∀ e ∈ normalizeParts parts, IsNormal e ∧ ∀ inner, e ≠ .concat inner
  | [], _, he => by cases he
  | part :: parts, e, he =>
    match List.mem_append.1 he with
    | .inl he => isNormal_of_mem_spliceParts (isNormal_normalize part) he
    | .inr he => isNormal_normalizeParts parts e he

/-- Normalized elements are normal, and no lists. -/
theorem isNormal_normalizeElements :
    ∀ elements : List Expr, ∀ e ∈ normalizeElements elements, IsNormal e ∧ ∀ inner, e ≠ .list inner
  | [], _, he => by cases he
  | element :: elements, e, he =>
    match List.mem_append.1 he with
    | .inl he => isNormal_of_mem_spliceElements (isNormal_normalize element) he
    | .inr he => isNormal_normalizeElements elements e he

end

/-! ## Normal expressions stay as they are -/

/-- What is no concatenation is one part. -/
theorem spliceParts_of_ne_concat (h : ∀ inner, e ≠ .concat inner) : spliceParts e = [e] := by
  cases e with
  | concat inner => exact absurd rfl (h inner)
  | _ => rfl

/-- What is no list is one element. -/
theorem spliceElements_of_ne_list (h : ∀ inner, e ≠ .list inner) : spliceElements e = [e] := by
  cases e with
  | list inner => exact absurd rfl (h inner)
  | _ => rfl

/-- Parts that are normal, and no concatenations, are left as they are. -/
theorem normalizeParts_eq (hnormal : ∀ e ∈ parts, normalize e = e)
    (hconcat : ∀ e ∈ parts, ∀ inner, e ≠ .concat inner) : normalizeParts parts = parts := by
  induction parts with
  | nil => rfl
  | cons e parts ih =>
    rw [List.forall_mem_cons] at hnormal hconcat
    rw [normalizeParts, hnormal.1, spliceParts_of_ne_concat hconcat.1, ih hnormal.2 hconcat.2,
      List.singleton_append]

/-- Elements that are normal, and no lists, are left as they are. -/
theorem normalizeElements_eq (hnormal : ∀ e ∈ elements, normalize e = e)
    (hlist : ∀ e ∈ elements, ∀ inner, e ≠ .list inner) : normalizeElements elements = elements := by
  induction elements with
  | nil => rfl
  | cons e elements ih =>
    rw [List.forall_mem_cons] at hnormal hlist
    rw [normalizeElements, hnormal.1, spliceElements_of_ne_list hlist.1, ih hnormal.2 hlist.2,
      List.singleton_append]

/-- Parts that no single expression stands for stay a concatenation. -/
theorem Compound.ofParts_eq (h : Compound parts) : ofParts parts = .concat parts := by
  unfold ofParts
  split
  · exact absurd rfl h.ne_nil
  · exact absurd rfl (h.ne_quoted _)
  · exact absurd rfl (h.ne_property _)
  · rfl

/-- A normal expression is its own normal form. -/
theorem IsNormal.normalize_eq (h : IsNormal e) : normalize e = e := by
  induction h with
  | literal | quoted | property | metadata | items => rfl
  | projection _ hjoined ih =>
    rw [normalize, normalizeParts_eq ih fun e he => (hjoined.isPart e he).2, hjoined.fuse_eq]
  | concat _ hjoined hcompound ih =>
    rw [normalize, normalizeParts_eq ih fun e he => (hjoined.isPart e he).2, hjoined.fuse_eq,
      hcompound.ofParts_eq]
  | list _ hlist ih => rw [normalize, normalizeElements_eq ih hlist]
  | not _ ih => rw [normalize, ih]
  | binary _ _ ihl ihr => rw [normalize, ihl, ihr]
  | call _ ih => rw [normalize, ih]

/-- Normalizing a second time changes nothing. -/
theorem normalize_idempotent (e : Expr) : normalize (normalize e) = normalize e :=
  (isNormal_normalize e).normalize_eq

end BuildEngine.Expr
