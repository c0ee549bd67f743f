import BuildEngine.Proofs.Text.Splitting
import BuildEngine.Text.Entries

/-!
# Lists that travel as text

A `;` between two texts cuts them apart, so the entries of a joined text are the entries of its
texts (`entries_joinEntries`). A text that can be an entry (`IsEntry`) is its own only entry, and a
list of such texts comes back from the text it was joined to (`entries_joinEntries_of_isEntry`).
Entries of a text can be entries (`isEntry_of_mem_entries`), so a list that was read from a text
travels on unchanged (`entries_split_join`).
-/

namespace BuildEngine.Text

variable {s : String} {xs : List String}

/-- A text that is kept as it is when it travels in a list. -/
structure IsEntry (s : String) : Prop where
  ne_empty : s ≠ ""
  not_separator : ';' ∉ s.toList
  trimmed : IsTrimmed s.toList

instance (s : String) : Decidable (IsEntry s) :=
  decidable_of_iff (s ≠ "" ∧ ';' ∉ s.toList ∧ IsTrimmed s.toList)
    ⟨fun h => ⟨h.1, h.2.1, h.2.2⟩, fun h => ⟨h.1, h.2, h.3⟩⟩

/-- The empty text has no entries. -/
theorem entries_empty : entries "" = [] := by
  decide

/-- Without a separator there is one entry, the text itself when it is trimmed, or none. -/
theorem entries_of_not_mem (h : ';' ∉ s.toList) :
    entries s = if trim s = "" then [] else [trim s] := by
  have hempty : trim s = "" ↔ trimChars s.toList = [] := by
    rw [trim, ← String.toList_eq_nil_iff, String.toList_ofList]
  rw [entries, entryChars, List.splitOn_eq_singleton h, List.map_singleton]
  by_cases hblank : trimChars s.toList = []
  · rw [if_pos (hempty.2 hblank), hblank]
    rfl
  · rw [if_neg (mt hempty.1 hblank), List.filter_cons_of_pos (by simpa using hblank)]
    rfl

/-- What can be an entry is its own only entry. -/
theorem IsEntry.entries_eq (h : IsEntry s) : entries s = [s] := by
  have htrim : trim s = s := by
    rw [trim, trimChars_of_isTrimmed h.trimmed, String.ofList_toList]
  rw [entries_of_not_mem h.not_separator, htrim, if_neg h.ne_empty]

/-- Whatever comes out of a text can be an entry. -/
theorem isEntry_of_mem_entries {e : String} (h : e ∈ entries s) : IsEntry e := by
  -- An entry is a piece of the text that was trimmed and kept, since something was left of it.
  obtain ⟨cs, hcs, rfl⟩ := List.mem_map.1 h
  obtain ⟨hpiece, hne⟩ := List.mem_filter.1 hcs
  obtain ⟨piece, hmem, rfl⟩ := List.mem_map.1 hpiece
  refine ⟨?_, ?_, ?_⟩
  · rw [ne_eq, ← String.toList_eq_nil_iff, String.toList_ofList]
    simpa using hne
  · rw [String.toList_ofList]
    exact fun hsep => not_mem_of_mem_splitOn hmem ((trimChars_sublist piece).subset hsep)
  · rw [String.toList_ofList]
    exact isTrimmed_trimChars piece

/-- A separator cuts a list into two. -/
theorem entries_append (s t : String) : entries (s ++ ";" ++ t) = entries s ++ entries t := by
  have htext : (s ++ ";" ++ t).toList = s.toList ++ ';' :: t.toList := by simp
  rw [entries, htext, entryChars, List.splitOn_append_cons_self, List.map_append,
    List.filter_append, List.map_append]
  rfl

/-- The entries of texts that are joined are theirs one after the other. -/
theorem entries_joinEntries (xs : List String) : entries (joinEntries xs) = xs.flatMap entries := by
  unfold joinEntries
  induction xs with
  | nil => exact entries_empty
  | cons s xs ih =>
    cases xs with
    | nil => simp
    | cons t xs =>
      rw [String.intercalate_cons_cons, entries_append, ih]
      rfl

/-- Empty texts have no entries, joined or not. -/
theorem entries_joinEntries_filter (xs : List String) :
    entries (joinEntries (xs.filter (· ≠ ""))) = xs.flatMap entries := by
  rw [entries_joinEntries]
  induction xs with
  | nil => rfl
  | cons s xs ih =>
    by_cases hs : s = ""
    · rw [List.filter_cons_of_neg (by simp [hs]), ih, List.flatMap_cons, hs, entries_empty,
        List.nil_append]
    · rw [List.filter_cons_of_pos (by simp [hs]), List.flatMap_cons, ih, List.flatMap_cons]

/-- A list comes back from its text. -/
theorem entries_joinEntries_of_isEntry (h : ∀ s ∈ xs, IsEntry s) :
    entries (joinEntries xs) = xs := by
  rw [entries_joinEntries, List.flatMap_congr fun s hs => (h s hs).entries_eq,
    List.flatMap_singleton']

/-- The laws of lists that travel as text. A separator cuts a list into two, and a text without one
is an entry once it is trimmed, unless nothing is left of it. Entries are not empty, have no
separator in them, and are trimmed; a list of such texts comes back from the text that it is joined
to, and therefore a list that was read from a text does. -/
theorem entries_split_join :
    (∀ s t, entries (s ++ ";" ++ t) = entries s ++ entries t) ∧
      (∀ s, ';' ∉ s.toList → entries s = if trim s = "" then [] else [trim s]) ∧
      (∀ s, ∀ e ∈ entries s, IsEntry e) ∧
      (∀ xs, (∀ e ∈ xs, IsEntry e) → entries (joinEntries xs) = xs) ∧
      ∀ s, entries (joinEntries (entries s)) = entries s := by
  refine ⟨entries_append, fun s => entries_of_not_mem, fun s e => isEntry_of_mem_entries,
    fun xs => entries_joinEntries_of_isEntry, fun s => ?_⟩
  exact entries_joinEntries_of_isEntry fun e => isEntry_of_mem_entries

/-- Blanks inside an entry stay, whatever blanks there are around it go. -/
theorem entries_split_join_wide_blanks :
    entries (" a b ;;\u00a0c\u3000" ++ ";" ++ "\t") = ["a b", "c"] ∧
      (∀ e ∈ ["a b", "c"], IsEntry e) ∧ entries (joinEntries ["a b", "c"]) = ["a b", "c"] := by
  obtain ⟨happend, hsingle, hentries, -, hagain⟩ := entries_split_join
  have hread : entries " a b ;;\u00a0c\u3000" = ["a b", "c"] := by decide +kernel
  have hblank : entries "\t" = [] := by
    rw [hsingle "\t" (by decide), if_pos (by decide +kernel)]
  rw [happend, hread, hblank, ← hread]
  exact ⟨rfl, hentries _, hagain _⟩

end BuildEngine.Text
