import BuildEngine.Proofs.Expr.Cutting

/-!
# Tokens where two texts meet

The tokens of a text that is put together are those of its parts if nothing grows across the seams.
No token grows across a seam in front of a blank character or of a delimiter, which is a symbol of
one character that has no part in any other symbol (`ofChars_append`), unless two runs of blank
characters meet; and none grows out of a delimiter (`ofChars_cons_delimiter`).
-/

namespace BuildEngine.Token

open Text (isBlank)

variable {c : Char} {cs ds rest : List Char} {t : Token} {ts : List Token} {k : TokenKind}

/-- The symbols of one character that neither begin nor continue another symbol. -/
def delimiter? : Char → Option TokenKind
  | '(' => some .openBracket
  | ')' => some .closeBracket
  | '\'' => some .quote
  | '$' => some .dollar
  | '@' => some .at
  | '%' => some .percent
  | ';' => some .semicolon
  | _ => none

/-- What follows ends every token in front of it that is not blank. -/
def Separated (ds : List Char) : Prop :=
  ∀ c ∈ ds.head?, isBlank c = true ∨ (delimiter? c).isSome = true

/-- A delimiter ends every token in front of it. -/
theorem separated_delimiter (h : delimiter? c = some k) (ds : List Char) : Separated (c :: ds) := by
  rintro _ ⟨⟩
  exact .inr (by rw [h]; rfl)

/-- A delimiter is not blank. -/
theorem not_isBlank_of_delimiter? (h : delimiter? c = some k) : isBlank c = false := by
  unfold delimiter? at h
  split at h <;> first | rfl | cases h

/-- A delimiter is a symbol by itself, whatever follows it. -/
theorem symbolAt?_delimiter (h : delimiter? c = some k) (cs : List Char) :
    symbolAt? (c :: cs) = some ([c], k) := by
  unfold delimiter? at h
  split at h <;> cases h <;> rfl

/-- Only the first character of a symbol can be a delimiter. -/
theorem not_separates_of_mem_symbols : ∀ symbol ∈ symbols, ∀ c ∈ symbol.1.tail,
    isBlank c = false ∧ delimiter? c = none := by
  have hall : ∀ symbol ∈ symbols,
      symbol.1.tail.all (fun c => !isBlank c && (delimiter? c).isNone) = true := by
    decide
  simpa using hall

/-! ## Seams in front of separators -/

/-- A symbol does not grow across a seam. -/
theorem prefix_of_prefix_append {symbol : List Char × TokenKind} (hsymbol : symbol ∈ symbols)
    (hds : Separated ds) (hne : cs ≠ []) (h : symbol.1 <+: cs ++ ds) : symbol.1 <+: cs := by
  by_contra hnot
  have hlong : cs.length < symbol.1.length := by
    by_contra hle
    exact hnot (List.prefix_of_prefix_length_le h (List.prefix_append cs ds) (Nat.le_of_not_lt hle))
  -- The symbol would hold the character behind the seam, and not as its first one.
  obtain ⟨more, hmore⟩ := List.prefix_of_prefix_length_le (List.prefix_append cs ds) h hlong.le
  obtain ⟨b, bs, rfl⟩ := List.exists_cons_of_ne_nil hne
  cases more with
  | nil =>
    rw [← hmore, List.append_nil] at hlong
    exact absurd hlong (lt_irrefl _)
  | cons d more =>
    have htail : d ∈ symbol.1.tail := by
      rw [← hmore]
      simp
    have hhead : d ∈ ds.head? := by
      obtain ⟨rest, hrest⟩ := h
      rw [← hmore, List.append_assoc, List.append_cancel_left_eq] at hrest
      rw [← hrest]
      rfl
    obtain ⟨hblank, hdelimiter⟩ := not_separates_of_mem_symbols symbol hsymbol d htail
    rcases hds d hhead with h | h
    · rw [hblank] at h
      cases h
    · rw [hdelimiter] at h
      cases h

/-- Where a word ends does not depend on what follows a seam. -/
theorem isStop_append_iff (hds : Separated ds) (hne : cs ≠ []) :
    IsStop (cs ++ ds) ↔ IsStop cs := by
  unfold IsStop StartsSymbol
  rw [List.head?_append_of_ne_nil _ hne]
  refine or_congr_right ?_
  constructor
  · rintro ⟨symbol, hsymbol, hbegins⟩
    exact ⟨symbol, hsymbol, prefix_of_prefix_append hsymbol hds hne hbegins⟩
  · rintro ⟨symbol, hsymbol, hbegins⟩
    exact ⟨symbol, hsymbol, hbegins.trans (List.prefix_append cs ds)⟩

/-- What separates is a stop, if it is there at all. -/
theorem Separated.isStop (hds : Separated ds) : ds = [] ∨ IsStop ds := by
  cases ds with
  | nil => exact .inl rfl
  | cons c ds =>
    rcases hds c rfl with hblank | hdelimiter
    · exact .inr (.inl ⟨c, rfl, hblank⟩)
    · obtain ⟨k, hk⟩ := Option.isSome_iff_exists.1 hdelimiter
      obtain ⟨hmem, hbegins⟩ := prefix_of_symbolAt? (symbolAt?_delimiter hk ds)
      exact .inr (.inr ⟨_, hmem, hbegins⟩)

/-- A token that leads the rest of a text leads it also when something is put behind the text. -/
theorem Leads.append (h : Leads t rest) (hds : Separated ds)
    (hblank : rest = [] → t.kind = .blank → ∀ c ∈ ds.head?, isBlank c = false) :
    Leads t (rest ++ ds) := by
  cases h with
  | blank hne hcs hrest =>
    refine .blank hne hcs ?_
    -- The run ends where it ended before, or at the seam.
    cases rest with
    | nil => exact hblank rfl rfl
    | cons c rest => exact hrest
  | @symbol cs rest k hsymbol =>
    refine .symbol ?_
    obtain ⟨hmem, -, hlongest⟩ := symbolAt?_eq_some_iff.1 hsymbol
    refine symbolAt?_eq_some_iff.2 ⟨hmem, List.prefix_append _ _, fun other hother hbegins => ?_⟩
    rw [← List.append_assoc] at hbegins
    have hne : cs ++ rest ≠ [] := by simp [ne_nil_of_mem_symbols _ hmem]
    exact hlongest other hother (prefix_of_prefix_append hother hds hne hbegins)
  | @word cs rest hne hunstopped hend =>
    refine .word hne (fun front back heq hback hstop => ?_) ?_
    -- What stopped the word stops it still, and what did not is no stop now.
    · rw [← List.append_assoc, isStop_append_iff hds (by simp [hback])] at hstop
      exact hunstopped front back heq hback hstop
    · by_cases hrest : rest = []
      · rw [hrest]
        exact hds.isStop
      · exact .inr ((isStop_append_iff hds hrest).2 (hend.resolve_left hrest))

/-- The tokens of two texts that meet at a separator are those of the one and of the other, unless
two runs of blank characters meet. -/
theorem ofChars_append (hds : Separated ds)
    (hblank : (∀ c ∈ cs.getLast?, isBlank c = false) ∨ ∀ c ∈ ds.head?, isBlank c = false) :
    ofChars (cs ++ ds) = ofChars cs ++ ofChars ds := by
  have hcut : Cut cs (ofChars cs) := cut_iff.2 rfl
  generalize ofChars cs = ts at hcut ⊢
  induction hcut with
  | nil => rfl
  | @cons t rest ts hleads _ ih =>
    have hrest : (∀ c ∈ rest.getLast?, isBlank c = false) ∨ ∀ c ∈ ds.head?, isBlank c = false := by
      refine hblank.imp_left fun h c hc => h c ?_
      rw [List.getLast?_append, Option.mem_def.1 hc]
      rfl
    have hlead : Leads t (rest ++ ds) := by
      refine hleads.append hds fun hnil hkind => ?_
      refine hblank.resolve_left fun h => ?_
      -- A blank token ends in a blank character.
      subst hnil
      rw [List.append_nil] at h
      obtain ⟨c, hc⟩ := Option.isSome_iff_exists.1 (List.getLast?_isSome.2 hleads.text_ne_nil)
      have hblank := (hleads.of_blank hkind).1 c (List.mem_of_getLast? hc)
      rw [h c hc] at hblank
      cases hblank
    rw [List.append_assoc, hlead.ofChars_append, ih hrest, List.cons_append]

/-! ## Seams behind and in front of delimiters -/

/-- A delimiter is a token of its own. -/
theorem ofChars_cons_delimiter (h : delimiter? c = some k) (cs : List Char) :
    ofChars (c :: cs) = ⟨k, String.singleton c⟩ :: ofChars cs := by
  have hleads : Leads ⟨k, String.ofList [c]⟩ cs := .symbol (symbolAt?_delimiter h cs)
  have hchars := hleads.ofChars_append
  rwa [String.toList_ofList] at hchars

/-- A delimiter stands alone wherever it stands. -/
theorem ofChars_append_delimiter (h : delimiter? c = some k) (cs ds : List Char) :
    ofChars (cs ++ c :: ds) = ofChars cs ++ ⟨k, String.singleton c⟩ :: ofChars ds := by
  have hblank : ∀ d ∈ (c :: ds).head?, isBlank d = false := by
    rintro _ ⟨⟩
    exact not_isBlank_of_delimiter? h
  rw [ofChars_append (separated_delimiter h ds) (.inr hblank), ofChars_cons_delimiter h]

/-- No token grows out of a delimiter. -/
theorem ofChars_append_of_getLast? (h : ∀ c ∈ cs.getLast?, (delimiter? c).isSome = true)
    (ds : List Char) : ofChars (cs ++ ds) = ofChars cs ++ ofChars ds := by
  rcases List.eq_nil_or_concat' cs with rfl | ⟨cs, c, rfl⟩
  · rw [ofChars, List.nil_append, List.nil_append]
  · obtain ⟨k, hk⟩ := Option.isSome_iff_exists.1 (h c (by simp))
    rw [List.append_assoc, List.singleton_append, ofChars_append_delimiter hk,
      ofChars_append_delimiter hk, ofChars, List.append_assoc, List.singleton_append]

/-! ## Seams at spaces and negations -/

/-- A single space is a token of its own. -/
theorem ofChars_cons_space (h : ∀ c ∈ cs.head?, isBlank c = false) :
    ofChars (' ' :: cs) = ⟨.blank, " "⟩ :: ofChars cs := by
  have hleads : Leads ⟨.blank, String.ofList [' ']⟩ cs :=
    .blank (List.cons_ne_nil _ _) (by simpa using Text.isBlank_space) h
  have hchars := hleads.ofChars_append
  rwa [String.toList_ofList] at hchars

/-- A space stands alone where it touches no other blank character. -/
theorem ofChars_append_space (hcs : ∀ c ∈ cs.getLast?, isBlank c = false)
    (hds : ∀ c ∈ ds.head?, isBlank c = false) :
    ofChars (cs ++ ' ' :: ds) = ofChars cs ++ ⟨.blank, " "⟩ :: ofChars ds := by
  have hseparated : Separated (' ' :: ds) := by
    rintro _ ⟨⟩
    exact .inl Text.isBlank_space
  rw [ofChars_append hseparated (.inl hcs), ofChars_cons_space hds]

/-- A negation is one if it does not begin an inequality. -/
theorem ofChars_cons_not (h : ∀ c ∈ cs.head?, c ≠ '=') :
    ofChars ('!' :: cs) = ⟨.not, "!"⟩ :: ofChars cs := by
  have hsymbol : symbolAt? ('!' :: cs) = some (['!'], .not) := by
    cases cs with
    | nil => rfl
    | cons c cs =>
      have hc : c ≠ '=' := h c rfl
      simp [symbolAt?, symbols, List.isPrefixOf, hc.symm]
  have hleads : Leads ⟨.not, String.ofList ['!']⟩ cs := .symbol hsymbol
  have hchars := hleads.ofChars_append
  rwa [String.toList_ofList] at hchars

/-! ## Delimiters among tokens -/

/-- Each kind has one symbol. -/
theorem eq_of_kind_of_mem_symbols : ∀ a ∈ symbols, ∀ b ∈ symbols, a.2 = b.2 → a = b := by decide

/-- The kind of a delimiter tells its text. -/
theorem Leads.text_of_delimiter? (h : Leads t rest) (hc : delimiter? c = some t.kind) :
    t.text = String.singleton c := by
  obtain ⟨hmem, -⟩ := prefix_of_symbolAt? (symbolAt?_delimiter hc [])
  obtain ⟨hblank, hword⟩ := kind_of_mem_symbols _ hmem
  obtain ⟨htext, -⟩ := prefix_of_symbolAt? (h.of_symbol hblank hword)
  have heq := eq_of_kind_of_mem_symbols _ htext _ hmem rfl
  rw [← String.toList_inj, (Prod.mk.inj heq).1, String.toList_singleton]

/-- A delimiter is a token of its own. -/
theorem Leads.eq_of_mem (h : Leads t rest) (hc : delimiter? c = some k)
    (hmem : c ∈ t.text.toList) : t = ⟨k, String.singleton c⟩ := by
  have hblank := not_isBlank_of_delimiter? hc
  by_cases hk : t.kind = .blank
  · rw [(h.of_blank hk).1 c hmem] at hblank
    cases hblank
  by_cases hword : t.kind.IsWord
  · obtain ⟨front, back, htext⟩ := List.append_of_mem hmem
    obtain ⟨hsymbol, hbegins⟩ := prefix_of_symbolAt? (symbolAt?_delimiter hc (back ++ rest))
    exact absurd (.inr ⟨_, hsymbol, hbegins⟩)
      ((h.of_isWord hword).1 front (c :: back) htext (List.cons_ne_nil _ _))
  · have hsymbolAt := h.of_symbol hk hword
    obtain ⟨hsymbol, -⟩ := prefix_of_symbolAt? hsymbolAt
    obtain ⟨b, bs, htext⟩ := List.exists_cons_of_ne_nil h.text_ne_nil
    rw [htext] at hmem hsymbol hsymbolAt
    -- The delimiter is the first character of the symbol, and so all of it.
    rcases List.mem_cons.1 hmem with rfl | htail
    · rw [List.cons_append, symbolAt?_delimiter hc] at hsymbolAt
      obtain ⟨hbs, hkind⟩ := Prod.mk.inj (Option.some.inj hsymbolAt)
      obtain ⟨kind, text⟩ := t
      simp only [Token.mk.injEq, ← String.toList_inj, String.toList_singleton]
      exact ⟨hkind.symm, htext.trans hbs.symm⟩
    · rw [(not_separates_of_mem_symbols _ hsymbol c htail).2] at hc
      cases hc

end BuildEngine.Token
