import BuildEngine.Proofs.Glob.Matching
import Mathlib.Data.List.Forall2
import Mathlib.Data.List.Infix

/-!
# The pieces of a pattern and the parts of a text

A pattern is read as pieces from its head: two stars are never read one by one, and a separator
behind two stars belongs to them (`Cut`, `cut_iff`). A text matches if it can be cut into parts, one
for each piece, each of them a text that its piece stands for (`matchesPattern_iff_parts`).

The program answers for all tails of a text at once. What a row of answers is for is said once
(`row_eq_map_tails`), and then each kind of piece is looked at by itself (`tokensMatch_cons_iff`).
-/

namespace BuildEngine

namespace GlobToken

/-- The characters that a piece is written with. -/
def text : GlobToken → List Char
  | literal c => [c]
  | anyChar => ['?']
  | anyName => ['*']
  | anyFolders => ['*', '*', '/']
  | anyText => ['*', '*']

/-- The texts that a piece stands for. -/
def StandsFor : GlobToken → List Char → Prop
  | literal c, part => part = [c]
  | anyChar, part => part.length = 1 ∧ '/' ∉ part
  | anyName, part => '/' ∉ part
  | anyFolders, part => part = [] ∨ part.getLast? = some '/'
  | anyText, _ => True

instance : (t : GlobToken) → (part : List Char) → Decidable (t.StandsFor part)
  | literal c, part => inferInstanceAs (Decidable (part = [c]))
  | anyChar, part => inferInstanceAs (Decidable (part.length = 1 ∧ '/' ∉ part))
  | anyName, part => inferInstanceAs (Decidable ('/' ∉ part))
  | anyFolders, part => inferInstanceAs (Decidable (part = [] ∨ part.getLast? = some '/'))
  | anyText, _ => inferInstanceAs (Decidable True)

/-- A piece can be read in front of the rest of a pattern. -/
def Leads : GlobToken → List Char → Prop
  | literal c, _ => c ≠ '*' ∧ c ≠ '?'
  | anyName, rest => rest.head? ≠ some '*'
  | anyText, rest => rest.head? ≠ some '/'
  | anyChar, _ | anyFolders, _ => True

end GlobToken

namespace Glob

variable {allowed : Char → Bool} {matched : List Char → Bool} {c : Char} {cs rest : List Char}
  {t : GlobToken} {ts : List GlobToken}

/-! ## The pieces of a pattern -/

/-- Pieces that a pattern is cut into from its head. -/
inductive Cut : List Char → List GlobToken → Prop
  | nil : Cut [] []
  | cons {t : GlobToken} {rest : List Char} {ts : List GlobToken} :
    t.Leads rest → Cut rest ts → Cut (t.text ++ rest) (t :: ts)

/-- A piece that can be read in front of the rest is read. -/
theorem tokens_text_append (h : t.Leads rest) : tokens (t.text ++ rest) = t :: tokens rest := by
  -- A piece that could be longer is told from the longer one by what follows it.
  cases t with
  | literal c => exact tokens_cons h.1 h.2 rest
  | anyChar => rfl
  | anyFolders => rfl
  | anyName =>
    cases rest with
    | nil => rfl
    | cons d rest =>
      have hstar : d ≠ '*' := by simpa [GlobToken.Leads] using h
      simp [GlobToken.text, tokens, hstar]
  | anyText =>
    cases rest with
    | nil => rfl
    | cons d rest =>
      have hslash : d ≠ '/' := by simpa [GlobToken.Leads] using h
      simp [GlobToken.text, tokens, hslash]

/-- Every pattern is cut in one way, which is how it is read. -/
theorem cut_iff : Cut cs ts ↔ tokens cs = ts := by
  constructor
  · intro h
    induction h with
    | nil => rfl
    | cons hleads _ ih => rw [tokens_text_append hleads, ih]
  · rintro rfl
    -- By the cases of the scanner: what it tried before and did not find is what the lead denies.
    fun_induction tokens cs with
    | case1 => exact .nil
    | case2 rest ih => exact .cons (t := .anyFolders) trivial ih
    | case3 rest hslash ih =>
      refine .cons (t := .anyText) ?_ ih
      rintro hhead
      obtain ⟨rest, rfl⟩ := List.head?_eq_some_iff.1 hhead
      exact hslash rest rfl
    | case4 rest hfolders hstar ih =>
      refine .cons (t := .anyName) ?_ ih
      intro hhead
      obtain ⟨rest, rfl⟩ := List.head?_eq_some_iff.1 hhead
      exact hstar rest rfl
    | case5 rest ih => exact .cons (t := .anyChar) trivial ih
    | case6 c rest hfolders htext hstar hany ih =>
      exact .cons (t := .literal c) ⟨hstar, hany⟩ ih

/-! ## Rows of answers -/

/-- A row holds the answer for every tail of the text. -/
theorem row_eq_map_tails (ts : List GlobToken) (cs : List Char) :
    row ts cs = cs.tails.map (tokensMatch ts) := by
  induction cs with
  | nil =>
    have hrow : ∃ b, row ts [] = [b] := by
      induction ts with
      | nil => exact ⟨true, rfl⟩
      | cons t ts ih =>
        obtain ⟨b, hb⟩ := ih
        have hstep : row (t :: ts) [] = tokenRow t [] [b] := hb ▸ rfl
        rw [hstep]
        cases t <;> exact ⟨_, rfl⟩
    obtain ⟨b, hb⟩ := hrow
    rw [List.tails, List.map_singleton, tokensMatch, hb, List.headD_cons]
  | cons c cs ih =>
    -- A row has the answer for the whole text in front of the row for the rest.
    obtain ⟨b, hb⟩ := row_cons ts c cs
    rw [List.tails_cons, List.map_cons, tokensMatch, hb, ih]
    rfl

/-- What is told for all tails is told for all of the characters first. -/
theorem headD_map_tails (matched : List Char → Bool) (cs : List Char) :
    (cs.tails.map matched).headD false = matched cs := by
  cases cs <;> rfl

/-- One allowed character is taken, and the rest matches. -/
theorem headD_consuming_iff :
    (consuming allowed cs (cs.tails.map matched)).headD false = true ↔
      ∃ c rest, cs = c :: rest ∧ allowed c = true ∧ matched rest = true := by
  cases cs with
  | nil => simp [consuming]
  | cons c cs =>
    rw [List.tails_cons, List.map_cons, consuming, List.headD_cons, Bool.and_eq_true,
      headD_map_tails]
    simp

/-- Allowed characters are left out, and the rest matches. -/
theorem headD_skipping_iff :
    (skipping allowed cs (cs.tails.map matched)).headD false = true ↔
      ∃ front rest, cs = front ++ rest ∧ (∀ c ∈ front, allowed c = true) ∧ matched rest = true := by
  -- On the text: the allowed front is empty or starts with the first character.
  induction cs with
  | nil => simp [skipping]
  | cons c cs ih =>
    rw [List.tails_cons, List.map_cons, skipping, List.headD_cons, Bool.or_eq_true,
      Bool.and_eq_true, ih]
    constructor
    · rintro (hhere | ⟨hc, front, rest, rfl, hfront, hrest⟩)
      · exact ⟨[], c :: cs, rfl, by simp, hhere⟩
      · exact ⟨c :: front, rest, rfl, List.forall_mem_cons.2 ⟨hc, hfront⟩, hrest⟩
    · rintro ⟨front, rest, heq, hfront, hrest⟩
      cases front with
      | nil => exact .inl (heq ▸ hrest)
      | cons d front =>
        obtain ⟨rfl, rfl⟩ := List.cons.inj heq
        rw [List.forall_mem_cons] at hfront
        exact .inr ⟨hfront.1, front, rest, rfl, hfront.2, hrest⟩

/-- Everything up to some separator is left out, and the rest matches. -/
theorem headD_behindSeparator_iff :
    (behindSeparator cs (cs.tails.map matched)).headD false = true ↔
      ∃ front rest, cs = front ++ '/' :: rest ∧ matched rest = true := by
  -- On the text: the separator stands first or further on.
  induction cs with
  | nil => simp [behindSeparator]
  | cons c cs ih =>
    rw [List.tails_cons, List.map_cons, behindSeparator, List.headD_cons, Bool.or_eq_true,
      Bool.and_eq_true, ih, headD_map_tails, decide_eq_true_eq]
    constructor
    · rintro (⟨rfl, hrest⟩ | ⟨front, rest, rfl, hrest⟩)
      · exact ⟨[], cs, rfl, hrest⟩
      · exact ⟨c :: front, rest, rfl, hrest⟩
    · rintro ⟨front, rest, heq, hrest⟩
      cases front with
      | nil =>
        obtain ⟨rfl, rfl⟩ := List.cons.inj heq
        exact .inl ⟨rfl, hrest⟩
      | cons d front =>
        obtain ⟨rfl, rfl⟩ := List.cons.inj heq
        exact .inr ⟨front, rest, rfl, hrest⟩

/-- The rest matches at once, or behind some separator. -/
theorem headD_anyFolders_iff :
    (tokenRow .anyFolders cs (cs.tails.map matched)).headD false = true ↔
      matched cs = true ∨ ∃ front rest, cs = front ++ '/' :: rest ∧ matched rest = true := by
  rw [tokenRow, ← headD_behindSeparator_iff]
  cases cs with
  | nil => simp [behindSeparator]
  | cons c cs =>
    rw [List.tails_cons, List.map_cons, behindSeparator, List.zipWith_cons_cons, List.headD_cons,
      List.headD_cons, Bool.or_eq_true]

/-! ## The parts of a text -/

/-- The first piece stands for a part in front, and the other pieces match what is behind it. -/
theorem tokensMatch_cons_iff (h : '\n' ∉ cs) :
    tokensMatch (t :: ts) cs = true ↔
      ∃ part rest, cs = part ++ rest ∧ t.StandsFor part ∧ tokensMatch ts rest = true := by
  have hrow : row (t :: ts) cs = tokenRow t cs (cs.tails.map (tokensMatch ts)) := by
    rw [← row_eq_map_tails]
    rfl
  rw [tokensMatch, hrow]
  cases t with
  | literal c =>
    rw [tokenRow, headD_consuming_iff]
    simp [GlobToken.StandsFor]
  | anyChar =>
    rw [tokenRow, headD_consuming_iff]
    constructor
    · rintro ⟨c, rest, rfl, hc, hrest⟩
      have hslash : '/' ∉ [c] := by simpa using Ne.symm (of_decide_eq_true hc)
      exact ⟨[c], rest, rfl, ⟨rfl, hslash⟩, hrest⟩
    · rintro ⟨part, rest, rfl, ⟨hlength, hpart⟩, hrest⟩
      obtain ⟨c, rfl⟩ := List.length_eq_one_iff.1 hlength
      have hc : c ≠ '/' := fun heq => hpart (heq ▸ List.mem_singleton_self c)
      exact ⟨c, rest, rfl, decide_eq_true hc, hrest⟩
  | anyName =>
    rw [tokenRow, headD_skipping_iff]
    refine exists₂_congr fun part rest => and_congr_right fun _ => and_congr_left fun _ => ?_
    simp only [decide_eq_true_eq]
    exact List.forall_mem_ne'
  | anyText =>
    rw [tokenRow, headD_skipping_iff]
    -- No part of a text without line feeds has one.
    refine exists₂_congr fun part rest => and_congr_right fun hcs => and_congr_left fun _ => ?_
    have hpart : ∀ c ∈ part, c ≠ '\n' := by
      rintro c hc rfl
      exact h (hcs ▸ List.mem_append_left rest hc)
    simpa [GlobToken.StandsFor] using hpart
  | anyFolders =>
    rw [headD_anyFolders_iff]
    constructor
    · rintro (hhere | ⟨front, rest, rfl, hrest⟩)
      · exact ⟨[], cs, rfl, .inl rfl, hhere⟩
      · -- The separator ends the part and does not begin the rest.
        exact ⟨front ++ ['/'], rest, List.append_cons .., .inr List.getLast?_concat, hrest⟩
    · rintro ⟨part, rest, rfl, rfl | hlast, hrest⟩
      · exact .inl hrest
      · obtain ⟨front, rfl⟩ := List.getLast?_eq_some_iff.1 hlast
        exact .inr ⟨front, rest, (List.append_cons ..).symm, hrest⟩

/-- Pieces match a text that can be cut into parts that they stand for. -/
theorem tokensMatch_iff (h : '\n' ∉ cs) :
    tokensMatch ts cs = true ↔
      ∃ parts, List.Forall₂ GlobToken.StandsFor ts parts ∧ parts.flatten = cs := by
  -- On the pieces: the first one stands for a front part, the others for the rest.
  induction ts generalizing cs with
  | nil =>
    simp only [List.forall₂_nil_left_iff, exists_eq_left, List.flatten_nil]
    cases cs <;> simp [tokensMatch, row, emptyRow]
  | cons t ts ih =>
    rw [tokensMatch_cons_iff h]
    constructor
    · rintro ⟨part, rest, rfl, hpart, hrest⟩
      obtain ⟨parts, hparts, rfl⟩ := (ih fun hmem => h (List.mem_append_right part hmem)).1 hrest
      exact ⟨part :: parts, .cons hpart hparts, rfl⟩
    · rintro ⟨_, hall, rfl⟩
      obtain ⟨part, parts, hpart, hparts, rfl⟩ := List.forall₂_cons_left_iff.1 hall
      rw [List.flatten_cons] at h ⊢
      exact ⟨part, parts.flatten, rfl, hpart,
        (ih fun hmem => h (List.mem_append_right part hmem)).2 ⟨parts, hparts, rfl⟩⟩

/-- A candidate without line feeds matches a pattern with a wildcard exactly if it can be cut, from
its first character to its last, into parts that the pieces of the pattern stand for. Both are first
made absolute and get separators of one kind. -/
theorem matchesPattern_iff_parts (base : Path) (pattern candidate : String)
    (hwild : hasWildcard pattern.toList = true) (hline : '\n' ∉ fullChars base candidate) :
    matchesPattern base pattern candidate = true ↔
      ∃ ts parts, Cut (fullChars base pattern) ts ∧
        List.Forall₂ GlobToken.StandsFor ts parts ∧ parts.flatten = fullChars base candidate := by
  rw [matchesPattern, if_pos hwild, tokensMatch_iff hline]
  constructor
  · rintro ⟨parts, hparts, hflatten⟩
    exact ⟨_, parts, cut_iff.2 rfl, hparts, hflatten⟩
  · rintro ⟨ts, parts, hcut, hparts, hflatten⟩
    obtain rfl := cut_iff.1 hcut
    exact ⟨parts, hparts, hflatten⟩

/-- Three stars are two and one, so they reach over separators; brackets, dots and plus signs stand
for themselves. -/
theorem matchesPattern_iff_parts_three_stars :
    let base : Path := ⟨"/s"⟩
    hasWildcard "***/?[+].cs".toList = true ∧ '\n' ∉ fullChars base "x/y/a[+].cs" ∧
      matchesPattern base "***/?[+].cs" "x/y/a[+].cs" = true := by
  intro base
  have hwild : hasWildcard "***/?[+].cs".toList = true := by decide
  have hline : '\n' ∉ fullChars base "x/y/a[+].cs" := by decide +kernel
  refine ⟨hwild, hline, (matchesPattern_iff_parts base _ _ hwild hline).2
    ⟨_, "/s/".toList.map (fun c => [c]) ++ [['x', '/'], ['y'], ['/'], ['a']] ++
      "[+].cs".toList.map fun c => [c], cut_iff.2 rfl, ?_, by decide +kernel⟩⟩
  decide +kernel

end Glob

end BuildEngine
