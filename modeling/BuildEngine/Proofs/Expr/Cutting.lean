import BuildEngine.Expr.Token
import Mathlib.Data.List.Basic
import Mathlib.Data.List.Chain
import Mathlib.Data.List.TakeWhile

/-!
# How a text is cut into tokens

Tokens are cut off the head of a text one at a time. `Cut` says which tokens may be cut off which
characters, by what one token leaves behind it (`Leads`), and it tells the tokens of every text
(`cut_iff`). From it follow the laws of the whole cut: nothing is lost and every token is as long as
it can be (`WellCut`, `tokenize_lossless_and_greedy`), and no other tokens of the same text keep
these laws (`WellCut.ofText_join`).
-/

namespace BuildEngine

/-- The kinds of words: text, and the operators that are spelled with letters. -/
def TokenKind.IsWord (k : TokenKind) : Prop :=
  k = .word ∨ k = .and ∨ k = .or

instance (k : TokenKind) : Decidable k.IsWord :=
  inferInstanceAs (Decidable (k = .word ∨ k = .and ∨ k = .or))

/-- Blanks are no words. -/
theorem TokenKind.not_isWord_blank : ¬TokenKind.blank.IsWord := by decide

namespace Token

open Text (isBlank takeWhile_isBlank dropWhile_isBlank)

variable {c : Char} {cs word rest : List Char} {t u : Token} {ts : List Token}

/-! ## Laws of a cut -/

/-- Whether a fixed symbol stands at the head of the characters. -/
def StartsSymbol (cs : List Char) : Prop :=
  ∃ symbol ∈ symbols, symbol.1 <+: cs

/-- The characters of tokens. -/
def chars (ts : List Token) : List Char :=
  ts.flatMap fun t => t.text.toList

/-- The kind that a text has as a token. -/
def kindOf (s : String) : TokenKind :=
  if s.toList.all isBlank then .blank
  else (symbols.lookup s.toList).getD (wordKind s)

/-- Tokens that a text is cut into without loss and as greedily as it goes. -/
structure WellCut (ts : List Token) : Prop where
  ne_empty : ∀ t ∈ ts, t.text ≠ ""
  kind : ∀ t ∈ ts, t.kind = kindOf t.text
  /-- A run of blank characters is one token. -/
  blanks : ts.IsChain fun t u => ¬(t.kind = .blank ∧ u.kind = .blank)
  /-- A run of other characters is one token. -/
  words : ts.IsChain fun t u => ¬(t.kind.IsWord ∧ u.kind.IsWord)
  not_blank : ∀ t ∈ ts, t.kind.IsWord → ∀ c ∈ t.text.toList, isBlank c = false
  /-- No fixed symbol begins inside a word. -/
  not_symbol : ∀ before t after, ts = before ++ t :: after → t.kind.IsWord →
    ∀ front back, t.text.toList = front ++ back → back ≠ [] → ¬StartsSymbol (back ++ chars after)
  /-- What is neither blank nor a word is the longest fixed symbol that the rest begins with. -/
  longest : ∀ before t after, ts = before ++ t :: after → t.kind ≠ .blank → ¬t.kind.IsWord →
    (t.text.toList, t.kind) ∈ symbols ∧
      ∀ symbol ∈ symbols, symbol.1 <+: chars (t :: after) → symbol.1.length ≤ t.text.toList.length

/-! ## Fixed symbols -/

/-- No fixed symbol holds a blank character. -/
theorem not_isBlank_of_mem_symbols :
    ∀ symbol ∈ symbols, ∀ c ∈ symbol.1, isBlank c = false := by
  have hall : ∀ symbol ∈ symbols, symbol.1.all (fun c => !isBlank c) = true := by decide
  simpa using hall

/-- A fixed symbol is neither blank nor a word. -/
theorem kind_of_mem_symbols : ∀ symbol ∈ symbols, symbol.2 ≠ .blank ∧ ¬symbol.2.IsWord := by decide

/-- A symbol stands in the table behind all that it begins. -/
theorem pairwise_symbols : symbols.Pairwise fun a b => ¬a.1 <+: b.1 := by decide

/-- Each symbol stands in the table once. -/
theorem eq_of_mem_symbols : ∀ a ∈ symbols, ∀ b ∈ symbols, a.1 = b.1 → a = b := by decide

/-- A symbol is found where one stands. -/
theorem isSome_symbolAt?_iff : (symbolAt? cs).isSome = true ↔ StartsSymbol cs := by
  simp [symbolAt?, StartsSymbol, List.find?_isSome]

/-- A symbol that is found stands in the table and at the head of the characters. -/
theorem prefix_of_symbolAt? {symbol : List Char × TokenKind} (h : symbolAt? cs = some symbol) :
    symbol ∈ symbols ∧ symbol.1 <+: cs := by
  have hbegins := List.find?_some h
  exact ⟨List.mem_of_find?_eq_some h, List.isPrefixOf_iff_prefix.1 hbegins⟩

/-- The first symbol of the table that the characters begin with is the longest one. -/
theorem longest_of_symbolAt? {symbol other : List Char × TokenKind} (h : symbolAt? cs = some symbol)
    (hother : other ∈ symbols) (hbegins : other.1 <+: cs) :
    other.1.length ≤ symbol.1.length := by
  obtain ⟨hsymbol, before, after, hsplit, hbefore⟩ := List.find?_eq_some_iff_append.1 h
  rw [List.isPrefixOf_iff_prefix] at hsymbol
  rw [hsplit, List.mem_append, List.mem_cons] at hother
  -- No symbol of the table begins a later one, so the first that fits is the longest.
  rcases hother with hmem | rfl | hmem
  · have hnot := hbefore other hmem
    rw [Bool.not_eq_true', ← Bool.not_eq_true, List.isPrefixOf_iff_prefix] at hnot
    exact absurd hbegins hnot
  · exact le_rfl
  · have hpairwise := pairwise_symbols
    rw [hsplit, List.pairwise_append, List.pairwise_cons] at hpairwise
    by_contra hlt
    exact hpairwise.2.1.1 other hmem
      (List.prefix_of_prefix_length_le hsymbol hbegins (Nat.le_of_not_le hlt))

/-- The longest symbol that the characters begin with is the one that is found. -/
theorem symbolAt?_eq_some_iff {symbol : List Char × TokenKind} :
    symbolAt? cs = some symbol ↔ symbol ∈ symbols ∧ symbol.1 <+: cs ∧
      ∀ other ∈ symbols, other.1 <+: cs → other.1.length ≤ symbol.1.length := by
  constructor
  · intro h
    obtain ⟨hmem, hbegins⟩ := prefix_of_symbolAt? h
    exact ⟨hmem, hbegins, fun other => longest_of_symbolAt? h⟩
  · rintro ⟨hmem, hbegins, hlongest⟩
    obtain ⟨found, hfound⟩ := Option.isSome_iff_exists.1
      (isSome_symbolAt?_iff.2 ⟨symbol, hmem, hbegins⟩)
    obtain ⟨hfoundMem, hfoundBegins⟩ := prefix_of_symbolAt? hfound
    -- Two symbols of the same length in front of the same characters are the same.
    have hlength := Nat.le_antisymm (hlongest found hfoundMem hfoundBegins)
      (longest_of_symbolAt? hfound hmem hbegins)
    have hsame := List.prefix_of_prefix_length_le hfoundBegins hbegins hlength.le
    rw [hfound, eq_of_mem_symbols found hfoundMem symbol hmem (hsame.eq_of_length hlength)]

/-! ## Words -/

/-- Where a word ends: at a blank character or at a symbol. -/
def IsStop (cs : List Char) : Prop :=
  (∃ c ∈ cs.head?, isBlank c = true) ∨ StartsSymbol cs

/-- Characters that no word ends before. -/
def Unstopped (word rest : List Char) : Prop :=
  ∀ front back, word = front ++ back → back ≠ [] → ¬IsStop (back ++ rest)

/-- Where no word ends there is neither a blank character nor a symbol. -/
theorem of_not_isStop (h : ¬IsStop cs) :
    (∀ c ∈ cs.head?, isBlank c = false) ∧ symbolAt? cs = none := by
  rw [IsStop, not_or, ← isSome_symbolAt?_iff, Option.not_isSome_iff_eq_none] at h
  exact ⟨fun c hc => Bool.eq_false_iff.2 fun hblank => h.1 ⟨c, hc, hblank⟩, h.2⟩

/-- Whether a word ends in front of a character can be computed. -/
theorem isStop_cons_iff :
    IsStop (c :: cs) ↔ (isBlank c || (symbolAt? (c :: cs)).isSome) = true := by
  rw [Bool.or_eq_true, isSome_symbolAt?_iff]
  simp [IsStop]

/-- No word ends inside of nothing. -/
theorem unstopped_nil (rest : List Char) : Unstopped [] rest :=
  fun _ _ heq hne => absurd (List.append_eq_nil_iff.1 heq.symm).2 hne

/-- No word ends inside of characters if none ends at the first or inside of the others. -/
theorem unstopped_cons_iff :
    Unstopped (c :: word) rest ↔ ¬IsStop (c :: (word ++ rest)) ∧ Unstopped word rest := by
  constructor
  · intro h
    refine ⟨h [] (c :: word) rfl (List.cons_ne_nil _ _), fun front back heq => ?_⟩
    exact h (c :: front) back (congrArg (c :: ·) heq)
  · rintro ⟨hstop, h⟩ front back heq hne
    rcases List.cons_eq_append_iff.1 heq with ⟨rfl, rfl⟩ | ⟨front, rfl, htail⟩
    · exact hstop
    · exact h front back htail hne

/-- The characters in front of the next stop, which is all of them if there is none. -/
theorem wordChars_eq_iff :
    wordChars cs = word ↔
      ∃ rest, cs = word ++ rest ∧ Unstopped word rest ∧ (rest = [] ∨ IsStop rest) := by
  induction cs generalizing word with
  | nil =>
    constructor
    · rintro rfl
      exact ⟨[], rfl, unstopped_nil [], .inl rfl⟩
    · rintro ⟨rest, heq, -, -⟩
      exact (List.append_eq_nil_iff.1 heq.symm).1.symm
  | cons c cs ih =>
    -- At a stop the word is empty; elsewhere the word of the tail gets one more character.
    by_cases hstop : IsStop (c :: cs)
    · have hword : wordChars (c :: cs) = [] := if_pos (isStop_cons_iff.1 hstop)
      rw [hword]
      constructor
      · rintro rfl
        exact ⟨c :: cs, rfl, unstopped_nil _, .inr hstop⟩
      · rintro ⟨rest, heq, hunstopped, -⟩
        by_contra hne
        exact hunstopped [] word rfl (Ne.symm hne) (heq ▸ hstop)
    · have hword : wordChars (c :: cs) = c :: wordChars cs :=
        if_neg fun h => hstop (isStop_cons_iff.2 h)
      rw [hword]
      constructor
      · rintro rfl
        obtain ⟨rest, heq, hunstopped, hend⟩ := ih.1 rfl
        exact ⟨rest, congrArg _ heq, unstopped_cons_iff.2 ⟨heq ▸ hstop, hunstopped⟩, hend⟩
      · rintro ⟨rest, heq, hunstopped, hend⟩
        cases word with
        | nil =>
          -- The word would end where no stop is.
          rw [List.nil_append] at heq
          subst heq
          exact absurd (hend.resolve_left (List.cons_ne_nil _ _)) hstop
        | cons d word =>
          rw [List.cons_append, List.cons.injEq] at heq
          obtain ⟨rfl, heq⟩ := heq
          rw [ih.2 ⟨rest, heq, (unstopped_cons_iff.1 hunstopped).2, hend⟩]

/-! ## Cutting one token at a time -/

/-- A token that may be cut off when `rest` is left behind it. -/
inductive Leads : Token → List Char → Prop
  | blank {cs rest : List Char} :
    cs ≠ [] → (∀ c ∈ cs, isBlank c = true) → (∀ c ∈ rest.head?, isBlank c = false) →
      Leads ⟨.blank, String.ofList cs⟩ rest
  | symbol {cs rest : List Char} {k : TokenKind} :
    symbolAt? (cs ++ rest) = some (cs, k) → Leads ⟨k, String.ofList cs⟩ rest
  | word {cs rest : List Char} :
    cs ≠ [] → Unstopped cs rest → (rest = [] ∨ IsStop rest) →
      Leads ⟨wordKind (String.ofList cs), String.ofList cs⟩ rest

/-- The tokens that characters are cut into. -/
inductive Cut : List Char → List Token → Prop
  | nil : Cut [] []
  | cons {t : Token} {rest : List Char} {ts : List Token} :
    Leads t rest → Cut rest ts → Cut (t.text.toList ++ rest) (t :: ts)

/-- The kind of a word is that of a word, however it is spelled. -/
theorem wordKind_isWord (s : String) : (wordKind s).IsWord := by
  unfold wordKind
  repeat' split
  all_goals decide

/-- No token is empty. -/
theorem Leads.text_ne_nil (h : Leads t rest) : t.text.toList ≠ [] := by
  cases h with
  | blank hne | word hne => rwa [String.toList_ofList]
  | symbol hsymbol =>
    rw [String.toList_ofList]
    exact ne_nil_of_mem_symbols _ (symbolAt?_eq_some_iff.1 hsymbol).1

/-- The first token of characters is told by what they begin with. -/
theorem Leads.ofChars_append (h : Leads t rest) :
    ofChars (t.text.toList ++ rest) = t :: ofChars rest := by
  -- One case for each kind of lead; the scanner takes the same branch, and takes the token only.
  obtain ⟨c, cs, htext⟩ := List.exists_cons_of_ne_nil h.text_ne_nil
  cases h with
  | blank hne hblank hrest =>
    rw [String.toList_ofList] at htext ⊢
    subst htext
    rw [List.forall_mem_cons] at hblank
    rw [List.cons_append, ofChars, if_pos hblank.1, List.takeWhile_append_of_pos hblank.2,
      List.dropWhile_append_of_pos hblank.2, takeWhile_isBlank hrest, dropWhile_isBlank hrest,
      List.append_nil]
  | symbol hsymbol =>
    rw [String.toList_ofList] at htext ⊢
    subst htext
    have hblank := not_isBlank_of_mem_symbols _ (prefix_of_symbolAt? hsymbol).1 c List.mem_cons_self
    rw [List.cons_append] at hsymbol
    rw [List.cons_append, ofChars, hblank, if_neg Bool.false_ne_true, hsymbol]
    simp
  | word hne hunstopped hend =>
    rw [String.toList_ofList] at htext ⊢
    subst htext
    rw [unstopped_cons_iff] at hunstopped
    obtain ⟨hblank, hsymbol⟩ := of_not_isStop hunstopped.1
    have hword : wordChars (cs ++ rest) = cs := wordChars_eq_iff.2 ⟨rest, rfl, hunstopped.2, hend⟩
    rw [List.cons_append, ofChars, hblank c rfl, if_neg Bool.false_ne_true, hsymbol]
    simp [hword]

/-- Some token leads any characters. -/
theorem exists_leads (hne : cs ≠ []) : ∃ t rest, cs = t.text.toList ++ rest ∧ Leads t rest := by
  obtain ⟨c, cs, rfl⟩ := List.exists_cons_of_ne_nil hne
  -- What is neither blank nor begins a symbol begins a word of one character at least.
  by_cases hblank : isBlank c = true
  · refine ⟨⟨.blank, String.ofList ((c :: cs).takeWhile isBlank)⟩, (c :: cs).dropWhile isBlank, ?_,
      .blank ?_ ?_ ?_⟩
    · rw [String.toList_ofList, List.takeWhile_append_dropWhile]
    · simp [hblank]
    · exact fun d hd => List.mem_takeWhile_imp hd
    · intro d hd
      have hnot := List.head?_dropWhile_not isBlank (c :: cs)
      rw [Option.mem_def.1 hd] at hnot
      exact hnot
  · cases hsymbol : symbolAt? (c :: cs) with
    | some symbol =>
      obtain ⟨rest, hrest⟩ := (prefix_of_symbolAt? hsymbol).2
      refine ⟨⟨symbol.2, String.ofList symbol.1⟩, rest, ?_, .symbol ?_⟩
      · rw [String.toList_ofList, hrest]
      · rw [hrest, hsymbol]
    | none =>
      obtain ⟨rest, heq, hunstopped, hend⟩ := wordChars_eq_iff.1 (rfl : wordChars (c :: cs) = _)
      refine ⟨_, rest, ?_, .word ?_ hunstopped hend⟩
      · rw [String.toList_ofList, ← heq]
      · rw [wordChars, hsymbol, Bool.eq_false_iff.2 hblank]
        exact List.cons_ne_nil _ _

/-- The tokens of characters are those that can be cut off them. -/
theorem cut_iff : Cut cs ts ↔ ofChars cs = ts := by
  constructor
  · intro h
    induction h with
    | nil => rw [ofChars]
    | cons hleads _ ih => rw [hleads.ofChars_append, ih]
  · rintro rfl
    -- What is left behind a token is shorter.
    induction hn : cs.length using Nat.strong_induction_on generalizing cs with
    | _ n ih =>
      by_cases hne : cs = []
      · rw [hne, ofChars]
        exact .nil
      · obtain ⟨t, rest, rfl, hleads⟩ := exists_leads hne
        rw [hleads.ofChars_append]
        have hpos := List.length_pos_iff.2 hleads.text_ne_nil
        rw [List.length_append] at hn
        exact .cons hleads (ih rest.length (by omega) rfl)

/-! ## What holds of every cut -/

/-- A blank token is a whole run: it holds blank characters only, and none follows. -/
theorem Leads.of_blank (h : Leads t rest) (hk : t.kind = .blank) :
    (∀ c ∈ t.text.toList, isBlank c = true) ∧ ∀ c ∈ rest.head?, isBlank c = false := by
  cases h with
  | blank _ hblank hrest =>
    rw [String.toList_ofList]
    exact ⟨hblank, hrest⟩
  | symbol hsymbol =>
    exact absurd hk (kind_of_mem_symbols _ (prefix_of_symbolAt? hsymbol).1).1
  | @word cs =>
    have hword := wordKind_isWord (String.ofList cs)
    rw [show wordKind (String.ofList cs) = .blank from hk] at hword
    exact absurd hword TokenKind.not_isWord_blank

/-- A word ends where a word ends, and not before. -/
theorem Leads.of_isWord (h : Leads t rest) (hk : t.kind.IsWord) :
    Unstopped t.text.toList rest ∧ (rest = [] ∨ IsStop rest) := by
  cases h with
  | blank => exact absurd hk TokenKind.not_isWord_blank
  | symbol hsymbol =>
    exact absurd hk (kind_of_mem_symbols _ (prefix_of_symbolAt? hsymbol).1).2
  | word _ hunstopped hend =>
    rw [String.toList_ofList]
    exact ⟨hunstopped, hend⟩

/-- A token of another kind is the symbol that is found. -/
theorem Leads.of_symbol (h : Leads t rest) (hblank : t.kind ≠ .blank) (hword : ¬t.kind.IsWord) :
    symbolAt? (t.text.toList ++ rest) = some (t.text.toList, t.kind) := by
  cases h with
  | blank => exact absurd rfl hblank
  | symbol hsymbol => rwa [String.toList_ofList]
  | word => exact absurd (wordKind_isWord _) hword

/-- Inside of a word there are no blank characters. -/
theorem Unstopped.not_isBlank (h : Unstopped word rest) : ∀ c ∈ word, isBlank c = false := by
  intro c hc
  obtain ⟨front, back, rfl⟩ := List.append_of_mem hc
  refine Bool.eq_false_iff.2 fun hblank => ?_
  exact h front (c :: back) rfl (List.cons_ne_nil _ _) (.inl ⟨c, rfl, hblank⟩)

/-- Every symbol is looked up with its kind. -/
theorem lookup_symbols : ∀ symbol ∈ symbols, symbols.lookup symbol.1 = some symbol.2 := by decide

/-- What is looked up stands in the table. -/
theorem mem_symbols_of_lookup {k : TokenKind} (h : symbols.lookup cs = some k) :
    (cs, k) ∈ symbols := by
  obtain ⟨before, after, hsplit, -⟩ := List.lookup_eq_some_iff.1 h
  rw [hsplit]
  exact List.mem_append_right _ List.mem_cons_self

/-- Characters of which none is blank are not all blank, if there are any. -/
theorem all_isBlank_of_not (hne : cs ≠ []) (h : ∀ c ∈ cs, isBlank c = false) :
    cs.all isBlank = false := by
  obtain ⟨c, hc⟩ := List.exists_mem_of_ne_nil cs hne
  rw [List.all_eq_false]
  exact ⟨c, hc, by simp [h c hc]⟩

/-- What leads is of the kind that its text tells. -/
theorem Leads.kind_eq (h : Leads t rest) : t.kind = kindOf t.text := by
  cases h with
  | blank _ hblank => rw [kindOf, String.toList_ofList, if_pos (List.all_eq_true.2 hblank)]
  | symbol hsymbol =>
    obtain ⟨hmem, -⟩ := prefix_of_symbolAt? hsymbol
    rw [kindOf, String.toList_ofList,
      all_isBlank_of_not (ne_nil_of_mem_symbols _ hmem) (not_isBlank_of_mem_symbols _ hmem),
      if_neg Bool.false_ne_true, lookup_symbols _ hmem]
    rfl
  | @word cs rest hne hunstopped hend =>
    -- A word that is a symbol would have a symbol begin inside it.
    have hlookup : symbols.lookup cs = none := by
      refine Option.eq_none_iff_forall_ne_some.2 fun k hk => ?_
      exact hunstopped [] cs rfl hne
        (.inr ⟨(cs, k), mem_symbols_of_lookup hk, List.prefix_append cs rest⟩)
    rw [kindOf, String.toList_ofList, all_isBlank_of_not hne hunstopped.not_isBlank,
      if_neg Bool.false_ne_true, hlookup]
    rfl

/-- Two tokens of which one leads the other are not of one run. -/
theorem Leads.neighbours (ht : Leads t (u.text.toList ++ rest)) (hu : Leads u rest) :
    ¬(t.kind = .blank ∧ u.kind = .blank) ∧ ¬(t.kind.IsWord ∧ u.kind.IsWord) := by
  obtain ⟨c, cs, hc⟩ := List.exists_cons_of_ne_nil hu.text_ne_nil
  constructor
  -- The second token begins with a character that ends the run of the first.
  · rintro ⟨htk, huk⟩
    have hblank := (hu.of_blank huk).1 c (hc ▸ List.mem_cons_self)
    have hnot := (ht.of_blank htk).2 c (by rw [hc]; rfl)
    rw [hblank] at hnot
    cases hnot
  · rintro ⟨htk, huk⟩
    have hend := (ht.of_isWord htk).2.resolve_left (by simp [hc])
    exact (hu.of_isWord huk).1 [] _ rfl hu.text_ne_nil hend

/-- The characters of tokens are those of the first one and then of the others. -/
theorem chars_cons (t : Token) (ts : List Token) : chars (t :: ts) = t.text.toList ++ chars ts :=
  rfl

/-- Nothing of the characters is lost. -/
theorem Cut.chars_eq (h : Cut cs ts) : chars ts = cs := by
  induction h with
  | nil => rfl
  | cons _ _ ih => rw [chars_cons, ih]

/-- Every token leads the characters of those behind it. -/
theorem Cut.leads (h : Cut cs ts) :
    ∀ before t after, ts = before ++ t :: after → Leads t (chars after) := by
  induction h with
  | nil =>
    intro before t after heq
    exact absurd heq.symm (by simp)
  | cons hleads hcut ih =>
    intro before t after heq
    rcases List.cons_eq_append_iff.1 heq with ⟨-, htokens⟩ | ⟨before, -, htail⟩
    · rw [List.cons.injEq] at htokens
      obtain ⟨rfl, rfl⟩ := htokens
      rwa [hcut.chars_eq]
    · exact ih before t after htail

/-- What holds of two tokens of which one leads the other holds of all neighbours. -/
theorem Cut.isChain {R : Token → Token → Prop} (h : Cut cs ts)
    (hR : ∀ t u rest, Leads t (u.text.toList ++ rest) → Leads u rest → R t u) : ts.IsChain R := by
  induction h with
  | nil => exact .nil
  | cons hleads hcut ih =>
    cases hcut with
    | nil => exact .singleton _
    | cons hnext _ => exact ih.cons_cons (hR _ _ _ hleads hnext)

/-- Tokens that characters are cut into keep all laws. -/
theorem Cut.wellCut (h : Cut cs ts) : WellCut ts := by
  -- Each law is about one token, or two neighbours, of the leads of the cut.
  have hleads : ∀ t ∈ ts, ∃ rest, Leads t rest := by
    intro t ht
    obtain ⟨before, after, heq⟩ := List.append_of_mem ht
    exact ⟨_, h.leads before t after heq⟩
  refine ⟨fun t ht => ?_, fun t ht => ?_, ?_, ?_, fun t ht hk => ?_, ?_, ?_⟩
  · obtain ⟨rest, hlead⟩ := hleads t ht
    exact fun heq => hlead.text_ne_nil (by rw [heq]; rfl)
  · obtain ⟨rest, hlead⟩ := hleads t ht
    exact hlead.kind_eq
  · exact h.isChain fun t u rest ht hu => (ht.neighbours hu).1
  · exact h.isChain fun t u rest ht hu => (ht.neighbours hu).2
  · obtain ⟨rest, hlead⟩ := hleads t ht
    exact (hlead.of_isWord hk).1.not_isBlank
  · intro before t after heq hk front back htext hne hsymbol
    exact ((h.leads before t after heq).of_isWord hk).1 front back htext hne (.inr hsymbol)
  · intro before t after heq hblank hword
    obtain ⟨hmem, -, hlongest⟩ :=
      symbolAt?_eq_some_iff.1 ((h.leads before t after heq).of_symbol hblank hword)
    exact ⟨hmem, hlongest⟩

/-! ## The laws tell the tokens -/

/-- A text whose kind is that of a word has the kind that it would have as a word. -/
theorem wordKind_of_isWord {s : String} (h : (kindOf s).IsWord) : kindOf s = wordKind s := by
  unfold kindOf at h ⊢
  split at h
  · exact absurd h TokenKind.not_isWord_blank
  · next hblank =>
    rw [if_neg hblank]
    cases hlookup : symbols.lookup s.toList with
    | none => rfl
    | some k =>
      rw [hlookup] at h
      exact absurd h (kind_of_mem_symbols _ (mem_symbols_of_lookup hlookup)).2

/-- A text whose kind is blank is blank. -/
theorem all_isBlank_of_kindOf {s : String} (h : kindOf s = .blank) :
    ∀ c ∈ s.toList, isBlank c = true := by
  by_contra hnot
  rw [← List.all_eq_true] at hnot
  rw [kindOf, if_neg hnot] at h
  cases hlookup : symbols.lookup s.toList with
  | none =>
    have hword := wordKind_isWord s
    rw [hlookup, Option.getD_none] at h
    exact TokenKind.not_isWord_blank (h ▸ hword)
  | some k =>
    rw [hlookup, Option.getD_some] at h
    exact (kind_of_mem_symbols _ (mem_symbols_of_lookup hlookup)).1 h

/-- Without the first one well cut tokens are well cut. -/
theorem WellCut.tail (h : WellCut (t :: ts)) : WellCut ts where
  ne_empty u hu := h.ne_empty u (List.mem_cons_of_mem t hu)
  kind u hu := h.kind u (List.mem_cons_of_mem t hu)
  blanks := h.blanks.tail
  words := h.words.tail
  not_blank u hu := h.not_blank u (List.mem_cons_of_mem t hu)
  not_symbol before u after heq := h.not_symbol (t :: before) u after (congrArg (t :: ·) heq)
  longest before u after heq := h.longest (t :: before) u after (congrArg (t :: ·) heq)

/-- The first of well cut tokens is not empty. -/
theorem WellCut.text_ne_nil (h : WellCut (t :: ts)) : t.text.toList ≠ [] :=
  fun hnil => h.ne_empty t List.mem_cons_self (String.toList_eq_nil_iff.1 hnil)

/-- A token that is not blank holds no blank character. -/
theorem WellCut.not_isBlank (h : WellCut (t :: ts)) (hk : t.kind ≠ .blank) :
    ∀ c ∈ t.text.toList, isBlank c = false := by
  by_cases hword : t.kind.IsWord
  · exact h.not_blank t List.mem_cons_self hword
  · exact not_isBlank_of_mem_symbols _ (h.longest [] t ts rfl hk hword).1

/-- A word ends in front of tokens that do not begin with one. -/
theorem WellCut.isStop (h : WellCut (t :: ts)) (hk : ¬t.kind.IsWord) :
    IsStop (chars (t :: ts)) := by
  by_cases hblank : t.kind = .blank
  · obtain ⟨c, cs, hc⟩ := List.exists_cons_of_ne_nil h.text_ne_nil
    have hall := all_isBlank_of_kindOf ((h.kind t List.mem_cons_self).symm.trans hblank)
    exact .inl ⟨c, by rw [chars_cons, hc]; rfl, hall c (hc ▸ List.mem_cons_self)⟩
  · exact .inr ⟨_, (h.longest [] t ts rfl hblank hk).1, List.prefix_append _ _⟩

/-- The first of well cut tokens leads the others. -/
theorem WellCut.leads (h : WellCut (t :: ts)) : Leads t (chars ts) := by
  have hkind := h.kind t List.mem_cons_self
  have hne := h.text_ne_nil
  -- One case for each way to lead; what comes next is told by the kind of the next token.
  by_cases hblank : t.kind = .blank
  · have hrest : ∀ c ∈ (chars ts).head?, isBlank c = false := by
      intro c hc
      cases ts with
      | nil => cases hc
      | cons u us =>
        have hu : u.kind ≠ .blank := fun hu => (List.isChain_cons_cons.1 h.blanks).1 ⟨hblank, hu⟩
        rw [chars_cons, List.head?_append_of_ne_nil _ h.tail.text_ne_nil] at hc
        exact h.tail.not_isBlank hu c (List.mem_of_mem_head? hc)
    have hleads := Leads.blank hne (all_isBlank_of_kindOf (hkind.symm.trans hblank)) hrest
    rwa [String.ofList_toList, ← hblank] at hleads
  · by_cases hword : t.kind.IsWord
    · have hend : chars ts = [] ∨ IsStop (chars ts) := by
        cases ts with
        | nil => exact .inl rfl
        | cons u us =>
          exact .inr (h.tail.isStop fun hu => (List.isChain_cons_cons.1 h.words).1 ⟨hword, hu⟩)
      have hunstopped : Unstopped t.text.toList (chars ts) := by
        rintro front back htext hback (⟨c, hc, hcblank⟩ | hsymbol)
        · rw [List.head?_append_of_ne_nil _ hback] at hc
          have hmem : c ∈ t.text.toList :=
            htext ▸ List.mem_append_right front (List.mem_of_mem_head? hc)
          rw [h.not_isBlank hblank c hmem] at hcblank
          cases hcblank
        · exact h.not_symbol [] t ts rfl hword front back htext hback hsymbol
      have hleads := Leads.word hne hunstopped hend
      rwa [String.ofList_toList, ← wordKind_of_isWord (hkind ▸ hword), ← hkind] at hleads
    · obtain ⟨hmem, hlongest⟩ := h.longest [] t ts rfl hblank hword
      have hleads := Leads.symbol
        (symbolAt?_eq_some_iff.2 ⟨hmem, List.prefix_append _ (chars ts), hlongest⟩)
      rwa [String.ofList_toList] at hleads

/-- Well cut tokens are what their characters are cut into. -/
theorem WellCut.cut (h : WellCut ts) : Cut (chars ts) ts := by
  induction ts with
  | nil => exact .nil
  | cons t ts ih => exact .cons h.leads (ih h.tail)

/-- The characters of the joined texts are those of the tokens. -/
theorem toList_join (ts : List Token) : (String.join (ts.map Token.text)).toList = chars ts := by
  rw [String.toList_join, List.flatMap_map]
  rfl

/-- Well cut tokens are the tokens of their text. -/
theorem WellCut.ofText_join (h : WellCut ts) : ofText (String.join (ts.map Token.text)) = ts := by
  rw [ofText, toList_join]
  exact cut_iff.1 h.cut

/-! ## Cutting does not fail -/

/-- A token that leads characters is the one that they begin with. -/
theorem Leads.next?_append (h : Leads t rest) : next? (t.text.toList ++ rest) = some t := by
  unfold next?
  -- The branch the code takes is the one of the lead.
  cases h with
  | blank hne hblank hrest =>
    rw [String.toList_ofList, List.takeWhile_append_of_pos hblank, takeWhile_isBlank hrest,
      List.append_nil, if_pos hne]
  | @symbol cs rest k hsymbol =>
    obtain ⟨hmem, -⟩ := prefix_of_symbolAt? hsymbol
    have hblank : ∀ c ∈ (cs ++ rest).head?, isBlank c = false := by
      intro c hc
      rw [List.head?_append_of_ne_nil _ (ne_nil_of_mem_symbols _ hmem)] at hc
      exact not_isBlank_of_mem_symbols _ hmem c (List.mem_of_mem_head? hc)
    rw [String.toList_ofList, takeWhile_isBlank hblank, hsymbol]
    rfl
  | @word cs rest hne hunstopped hend =>
    obtain ⟨hblank, hsymbol⟩ := of_not_isStop (hunstopped [] cs rfl hne)
    have hword : wordChars (cs ++ rest) = cs := wordChars_eq_iff.2 ⟨rest, rfl, hunstopped, hend⟩
    have htext : String.ofList cs ≠ "" := by simpa using hne
    rw [String.toList_ofList, takeWhile_isBlank hblank, hsymbol, hword]
    exact if_neg htext

/-- The scanner comes to the tokens that characters are cut into, wherever it starts to count. -/
theorem Cut.cutFrom_eq_ok (h : Cut cs ts) (offset : Nat) : cutFrom offset cs = .ok ts := by
  -- On the cut: each step of the loop takes off the token in front.
  induction h generalizing offset with
  | nil => rw [cutFrom, dif_pos rfl]
  | @cons t rest ts hleads _ ih =>
    have hne : t.text.toList ++ rest ≠ [] := by simp [hleads.text_ne_nil]
    rw [cutFrom, dif_neg hne]
    split
    · next hnone =>
      rw [hleads.next?_append] at hnone
      cases hnone
    · next t' hsome =>
      rw [hleads.next?_append] at hsome
      cases hsome
      rw [List.drop_left, ih]
      rfl

/-- Every text is cut into tokens, nothing of it is lost, and the cut is as greedy as it goes. -/
theorem tokenize_lossless_and_greedy (s : String) :
    tokenize s = .ok (ofText s) ∧ String.join ((ofText s).map Token.text) = s ∧
      WellCut (ofText s) := by
  have hcut : Cut s.toList (ofText s) := cut_iff.2 rfl
  refine ⟨hcut.cutFrom_eq_ok 0, ?_, hcut.wellCut⟩
  rw [← String.toList_inj, toList_join, hcut.chars_eq]

end Token

end BuildEngine
