import SwaptoshiService.Framework.Filters
import SwaptoshiService.Lib.Like

/-!
# Searches for literal texts

The texts that users search for go into patterns of `LIKE`, and `escapeUserInput` puts a backslash
before each `%` and `_` of them, so that these are searched for as they are. A backslash of the user
stays as it is: it takes the next character as it is, or takes the effect of the backslash that is
put there.

`search_literal_iff`: a search finds the texts that it should if and only if the user's text has no
backslash; at the end of `endsWith` one does no harm, since nothing comes after it.
-/

namespace SwaptoshiService

namespace QueryBuilder

open Sql Like

/-- Texts as the database compares them, without the folding of cases. -/
def textOps : Ops String where
  eq := fun x y => x = y
  lt := fun x y => x < y
  le := fun x y => x ≤ y
  like := like

/-- The characters of `escapeUserInput(input)`. -/
def escapeChars (s : List Char) : List Char :=
  s.flatMap fun c => if c = '%' ∨ c = '_' then ['\\', c] else [c]

theorem toList_escapeUserInput (input : String) :
    (escapeUserInput input).toList = escapeChars input.toList := String.toList_ofList

/-! ### Tokens of a pattern with the user's text -/

section Escape

variable {c : Char} {s q : List Char}

theorem escapeChars_cons_wild (h : c = '%' ∨ c = '_') (s : List Char) :
    escapeChars (c :: s) = '\\' :: c :: escapeChars s := by
  rw [escapeChars, List.flatMap_cons, if_pos h]
  rfl

theorem escapeChars_cons (h : ¬ (c = '%' ∨ c = '_')) (s : List Char) :
    escapeChars (c :: s) = c :: escapeChars s := by
  rw [escapeChars, List.flatMap_cons, if_neg h]
  rfl

/-- A character that is no backslash stands for itself. -/
theorem tokens_escapeChars_cons (hc : c ≠ '\\') (s q : List Char) :
    tokens (escapeChars (c :: s) ++ q) = .char c :: tokens (escapeChars s ++ q) := by
  by_cases h : c = '%' ∨ c = '_'
  · rw [escapeChars_cons_wild h]
    rfl
  · rw [escapeChars_cons h]
    exact tokens_cons (not_or.mp h).1 (not_or.mp h).2 hc _

theorem tokens_escapeChars (hs : '\\' ∉ s) (q : List Char) :
    tokens (escapeChars s ++ q) = literal s ++ tokens q := by
  induction s with
  | nil => rfl
  | cons c s ih =>
    rw [List.mem_cons, not_or] at hs
    rw [tokens_escapeChars_cons (Ne.symm hs.1), ih hs.2]
    rfl

/-- A backslash at the end stands for itself. -/
theorem tokens_escapeChars_of_dropLast (hs : '\\' ∉ s.dropLast) :
    tokens (escapeChars s ++ []) = literal s := by
  rcases List.eq_nil_or_concat s with rfl | ⟨init, c, rfl⟩
  · rfl
  rw [List.concat_eq_append, List.dropLast_concat] at hs
  rw [List.concat_eq_append, List.append_nil, escapeChars, List.flatMap_append, ← escapeChars,
    tokens_escapeChars hs, literal, literal, List.map_append]
  congr 1
  by_cases hc : c = '\\'
  · subst hc
    rfl
  · have hone := tokens_escapeChars_cons hc [] []
    rwa [List.append_nil, List.append_nil] at hone

/-- A backslash takes the next character, and the backslash before it if there is one. -/
theorem tokens_escapeChars_backslash (c : Char) (s q : List Char) :
    tokens (escapeChars ('\\' :: c :: s) ++ q) =
      (if c = '%' then [.char '\\', .any] else if c = '_' then [.char '\\', .one] else [.char c]) ++
        tokens (escapeChars s ++ q) := by
  rw [escapeChars_cons (by decide)]
  by_cases hany : c = '%'
  · rw [escapeChars_cons_wild (.inl hany), if_pos hany, hany]
    rfl
  by_cases hone : c = '_'
  · rw [escapeChars_cons_wild (.inr hone), if_neg hany, if_pos hone, hone]
    rfl
  · rw [escapeChars_cons (not_or.mpr ⟨hany, hone⟩), if_neg hany, if_neg hone]
    rfl

theorem least_escapeChars_cons (hc : c ≠ '\\') (s q : List Char) :
    least (tokens (escapeChars (c :: s) ++ q)) = c :: least (tokens (escapeChars s ++ q)) := by
  rw [tokens_escapeChars_cons hc]
  rfl

/-- After a backslash there is less than the user has written, or a letter for a `_`. -/
theorem least_escapeChars_backslash (c : Char) (s q : List Char) :
    ∃ c', c' ≠ c ∧ (least (tokens (escapeChars ('\\' :: c :: s) ++ q)) =
        '\\' :: c' :: least (tokens (escapeChars s ++ q)) ∨
      least (tokens (escapeChars ('\\' :: c :: s) ++ q)) =
        '\\' :: least (tokens (escapeChars s ++ q)) ∨
      least (tokens (escapeChars ('\\' :: c :: s) ++ q)) =
        c :: least (tokens (escapeChars s ++ q))) := by
  rw [tokens_escapeChars_backslash]
  by_cases hany : c = '%'
  · rw [if_pos hany]
    exact ⟨'a', by rw [hany]; decide, .inr (.inl rfl)⟩
  by_cases hone : c = '_'
  · rw [if_neg hany, if_pos hone]
    exact ⟨'a', by rw [hone]; decide, .inl rfl⟩
  · rw [if_neg hany, if_neg hone]
    exact ⟨'%', Ne.symm hany, .inr (.inr rfl)⟩

/-- **The least text that a pattern matches** is not longer than the user's text, and is another one
if a backslash is in it, unless it is at the end of the pattern. -/
theorem least_escapeChars (hq : q = [] ∨ q = ['%']) : ∀ s : List Char,
    (least (tokens (escapeChars s ++ q))).length ≤ s.length ∧
      (least (tokens (escapeChars s ++ q)) = s → '\\' ∉ s.dropLast ∧ (q ≠ [] → '\\' ∉ s))
  | [] => by rcases hq with rfl | rfl <;> simp [escapeChars, tokens, least]
  | [c] => by
    by_cases hc : c = '\\'
    · subst hc
      rcases hq with rfl | rfl <;> simp [escapeChars, tokens, least]
    · rw [least_escapeChars_cons hc]
      rcases hq with rfl | rfl <;> simp [escapeChars, tokens, least, Ne.symm hc]
  | c :: d :: s => by
    by_cases hc : c = '\\'
    · subst hc
      obtain ⟨hlength, -⟩ := least_escapeChars hq s
      -- Either there is another letter than the user's, or one is missing.
      obtain ⟨d', hd, heq | heq | heq⟩ := least_escapeChars_backslash d s q
      · rw [heq]
        refine ⟨by simpa using hlength, fun h => ?_⟩
        exact absurd (List.cons.inj (List.cons.inj h).2).1 hd
      · rw [heq]
        refine ⟨by simp only [List.length_cons]; omega, fun h => ?_⟩
        have hlengths := congrArg List.length h
        simp only [List.length_cons] at hlengths
        omega
      · rw [heq]
        refine ⟨by simp only [List.length_cons]; omega, fun h => ?_⟩
        have hlengths := congrArg List.length h
        simp only [List.length_cons] at hlengths
        omega
    · obtain ⟨hlength, hsame⟩ := least_escapeChars hq (d :: s)
      rw [least_escapeChars_cons hc]
      refine ⟨by simpa using hlength, fun h => ?_⟩
      obtain ⟨hlast, hall⟩ := hsame (List.cons.inj h).2
      refine ⟨?_, fun hne => ?_⟩
      · rw [List.dropLast_cons_cons, List.mem_cons, not_or]
        exact ⟨Ne.symm hc, hlast⟩
      · rw [List.mem_cons, not_or]
        exact ⟨Ne.symm hc, hall hne⟩

/-- A text that the pattern matches and that has the user's text in it. -/
theorem not_mem_of_sublist_least (hq : q = [] ∨ q = ['%'])
    (h : s.Sublist (least (tokens (escapeChars s ++ q)))) :
    '\\' ∉ s.dropLast ∧ (q ≠ [] → '\\' ∉ s) := by
  obtain ⟨hlength, hsame⟩ := least_escapeChars hq s
  exact hsame (h.eq_of_length_le hlength).symm

end Escape

/-! ### Searches -/

section Searches

variable {C V : Type}

/-- Entries of `orSearch` with one text each are alternatives. -/
theorem all_orSearch {ops : Ops V} {entries : List (Search C)} {r : Row C V}
    (hone : ∀ entry ∈ entries, ∃ c, searchConds ops entry = [c]) :
    All (group (orSearchClauses ops entries)) r ↔
      entries = [] ∨ ∃ entry ∈ entries, All (searchConds ops entry) r := by
  cases entries with
  | nil => simp [orSearchClauses, group, All]
  | cons entry entries =>
    obtain ⟨c, hc⟩ := hone entry List.mem_cons_self
    have hrest : (∃ c ∈ entries.flatMap (searchConds ops), c r = some true) ↔
        ∃ entry ∈ entries, All (searchConds ops entry) r := by
      simp only [List.mem_flatMap]
      constructor
      · rintro ⟨c', ⟨entry', hentry, hc'⟩, htrue⟩
        obtain ⟨c'', hc''⟩ := hone entry' (List.mem_cons_of_mem _ hentry)
        refine ⟨entry', hentry, ?_⟩
        rw [hc'', List.mem_singleton] at hc'
        simp [hc'', All, ← hc', htrue]
      · rintro ⟨entry', hentry, hall⟩
        obtain ⟨c'', hc''⟩ := hone entry' (List.mem_cons_of_mem _ hentry)
        have hmem : c'' ∈ searchConds ops entry' := hc'' ▸ List.mem_singleton_self c''
        exact ⟨c'', ⟨entry', hentry, hmem⟩, hall c'' hmem⟩
    rw [all_group, orSearchClauses, holds_ors, hrest, hc]
    simp [ands, hc]

/-- A search finds the texts in question, and no others. -/
def Finds (entry : Search C) (found : List Char → Prop) : Prop :=
  ∀ (r : Row C String) t, r entry.property = some t →
    (All (searchConds textOps entry) r ↔ found t.toList)

/-- An empty text is no condition. -/
theorem finds_of_nil {entry : Search C} {found : List Char → Prop}
    (h : searchConds textOps entry = []) (hfound : ∀ t, found t) : Finds entry found := by
  intro r t _
  rw [h]
  exact iff_of_true (fun c hc => absurd hc List.not_mem_nil) (hfound _)

/-- A search with one pattern. -/
theorem finds_iff {entry : Search C} {found : List Char → Prop} {pattern : String}
    (h : searchConds textOps entry = [whereLike textOps entry.property pattern]) :
    Finds entry found ↔
      ∀ t, matchesTokens (tokens pattern.toList) t = true ↔ found t := by
  have hrow : ∀ (r : Row C String) t, r entry.property = some t →
      (All [whereLike textOps entry.property pattern] r ↔
        matchesTokens (tokens pattern.toList) t.toList = true) := by
    intro r t ht
    simp [All, whereLike, ht, textOps, like]
  constructor
  · intro hfinds t
    have ht := hfinds (fun _ => some (String.ofList t)) (String.ofList t) rfl
    rw [h, hrow _ _ rfl, String.toList_ofList] at ht
    exact ht
  · intro hall r t ht
    rw [h, hrow r t ht]
    exact hall t.toList

theorem finds_pattern_iff (c : C) (s : String) :
    Finds { property := c, pattern := s } (s.toList <:+: ·) ↔ '\\' ∉ s.toList := by
  by_cases hs : s = ""
  · subst hs
    exact iff_of_true (finds_of_nil rfl fun t => List.nil_infix) (by simp)
  have hconds : searchConds textOps ({ property := c, pattern := s } : Search C) =
      [whereLike textOps c ("%" ++ escapeUserInput s ++ "%")] := by
    simp [searchConds, hs]
  have htokens : tokens ("%" ++ escapeUserInput s ++ "%").toList =
      .any :: tokens (escapeChars s.toList ++ ['%']) := by
    rw [String.toList_append, String.toList_append, toList_escapeUserInput]
    rfl
  rw [finds_iff hconds, htokens]
  constructor
  · intro h
    -- The least text that is found has to have the user's text in it.
    have hfound := (h _).mp (matchesTokens_any.mpr ⟨[], _, rfl, matchesTokens_least _⟩)
    exact (not_mem_of_sublist_least (.inr rfl) hfound.sublist).2 (by simp)
  · intro h t
    rw [tokens_escapeChars h]
    exact matchesTokens_any_literal_any

theorem finds_startsWith_iff (c : C) (s : String) :
    Finds { property := c, startsWith := s } (s.toList <+: ·) ↔ '\\' ∉ s.toList := by
  by_cases hs : s = ""
  · subst hs
    exact iff_of_true (finds_of_nil rfl fun t => List.nil_prefix) (by simp)
  have hconds : searchConds textOps ({ property := c, startsWith := s } : Search C) =
      [whereLike textOps c (escapeUserInput s ++ "%")] := by
    simp [searchConds, hs]
  have htokens : tokens (escapeUserInput s ++ "%").toList =
      tokens (escapeChars s.toList ++ ['%']) := by
    rw [String.toList_append, toList_escapeUserInput]
    rfl
  rw [finds_iff hconds, htokens]
  constructor
  · intro h
    have hfound := (h _).mp (matchesTokens_least _)
    exact (not_mem_of_sublist_least (.inr rfl) hfound.sublist).2 (by simp)
  · intro h t
    rw [tokens_escapeChars h]
    exact matchesTokens_literal_any

theorem finds_endsWith_iff (c : C) (s : String) :
    Finds { property := c, endsWith := s } (s.toList <:+ ·) ↔ '\\' ∉ s.toList.dropLast := by
  by_cases hs : s = ""
  · subst hs
    exact iff_of_true (finds_of_nil rfl fun t => List.nil_suffix) (by simp)
  have hconds : searchConds textOps ({ property := c, endsWith := s } : Search C) =
      [whereLike textOps c ("%" ++ escapeUserInput s)] := by
    simp [searchConds, hs]
  have htokens : tokens ("%" ++ escapeUserInput s).toList =
      .any :: tokens (escapeChars s.toList ++ []) := by
    rw [String.toList_append, toList_escapeUserInput, List.append_nil]
    rfl
  rw [finds_iff hconds, htokens]
  constructor
  · intro h
    have hfound := (h _).mp (matchesTokens_any.mpr ⟨[], _, rfl, matchesTokens_least _⟩)
    exact (not_mem_of_sublist_least (.inl rfl) hfound.sublist).1
  · intro h t
    rw [tokens_escapeChars_of_dropLast h]
    exact matchesTokens_any_literal

/-- **When a search is literal.** -/
theorem search_literal_iff (c : C) (s : String) :
    (Finds { property := c, pattern := s } (s.toList <:+: ·) ↔ '\\' ∉ s.toList) ∧
      (Finds { property := c, startsWith := s } (s.toList <+: ·) ↔ '\\' ∉ s.toList) ∧
      (Finds { property := c, endsWith := s } (s.toList <:+ ·) ↔ '\\' ∉ s.toList.dropLast) :=
  ⟨finds_pattern_iff c s, finds_startsWith_iff c s, finds_endsWith_iff c s⟩

/-- A backslash finds texts that end with a percent sign. -/
theorem backslash_finds_percent :
    All (searchConds textOps ({ property := (), pattern := "\\" } : Search Unit))
        (fun _ => some "5%") ∧
      ¬ "\\".toList <:+: "5%".toList ∧
      ¬ All (searchConds textOps ({ property := (), pattern := "\\" } : Search Unit))
        (fun _ => some "a\\b") ∧
      "\\".toList <:+: "a\\b".toList := by
  decide +kernel

end Searches

end QueryBuilder

end SwaptoshiService
