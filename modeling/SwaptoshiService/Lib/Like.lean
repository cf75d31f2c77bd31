import Mathlib.Data.List.Infix
import Mathlib.Tactic.Common

/-!
# Patterns of `LIKE`

A pattern of `LIKE` is a text in which `%` stands for any text, `_` for any character, and a
backslash takes the next character as it is; the last character of a pattern may be a backslash,
which then is itself. A pattern is read as a list of tokens (`tokens`), which is then compared with
a text (`matchesTokens`).

Every pattern matches the text that it has itself, with nothing for `%` and some character for `_`
(`matchesTokens_least`).

A `Collation` compares characters by their weights. The wildcards and the escape are read off the
pattern before (`Collation.matchesPattern`).
-/

namespace SwaptoshiService

namespace Like

/-! ### Tokens -/

/-- What a part of a pattern stands for. -/
inductive Token
  | any
  | one
  | char (c : Char)
deriving DecidableEq

/-- The tokens of a pattern. -/
def tokens : List Char → List Token
  | [] => []
  | '%' :: rest => .any :: tokens rest
  | '_' :: rest => .one :: tokens rest
  | '\\' :: c :: rest => .char c :: tokens rest
  | c :: rest => .char c :: tokens rest

/-- The tokens match the text. -/
def matchesTokens : List Token → List Char → Bool
  | [], text => text.isEmpty
  | .any :: rest, text => text.tails.any (matchesTokens rest)
  | .one :: _, [] => false
  | .one :: rest, _ :: text => matchesTokens rest text
  | .char _ :: _, [] => false
  | .char c :: rest, c' :: text => c = c' && matchesTokens rest text

/-- `text LIKE pattern`. -/
def like (text pattern : String) : Bool := matchesTokens (tokens pattern.toList) text.toList

/-- The tokens of characters that stand for themselves. -/
def literal (s : List Char) : List Token := s.map .char

/-- A text with nothing for `%`, and the letter a for `_`. -/
def least : List Token → List Char
  | [] => []
  | .any :: rest => least rest
  | .one :: rest => 'a' :: least rest
  | .char c :: rest => c :: least rest

/-- A token whose character is compared by its weight. -/
def Token.fold (fold : Char → Char) : Token → Token
  | .any => .any
  | .one => .one
  | .char c => .char (fold c)

/-- How characters are compared: each has a weight, given by a character. The special characters of
patterns are told from each other and from letters. -/
structure Collation where
  fold : Char → Char
  percent : fold '%' ≠ fold '\\'
  underscore : fold 'a' ≠ fold '_'

/-- Upper and lower case are the same. -/
def Collation.ignoreCase : Collation := ⟨Char.toLower, by decide, by decide⟩

/-- `text LIKE pattern` in a collation. -/
def Collation.matchesPattern (collation : Collation) (pattern text : List Char) : Bool :=
  matchesTokens ((tokens pattern).map (Token.fold collation.fold)) (text.map collation.fold)

/-- The text has the other one in it, up to weights. -/
def Collation.Contains (collation : Collation) (text s : List Char) : Prop :=
  s.map collation.fold <:+: text.map collation.fold

section Tokens

variable {c : Char} {s text : List Char} {rest : List Token}

theorem tokens_cons (hany : c ≠ '%') (hone : c ≠ '_') (hescape : c ≠ '\\') (s : List Char) :
    tokens (c :: s) = .char c :: tokens s := by
  rw [tokens]
  · exact hany
  · exact hone
  · exact fun _ _ h _ => hescape h

/-- A text without special characters, before the rest of a pattern. -/
theorem tokens_append (h : ∀ c ∈ s, c ≠ '%' ∧ c ≠ '_' ∧ c ≠ '\\') (q : List Char) :
    tokens (s ++ q) = literal s ++ tokens q := by
  induction s with
  | nil => rfl
  | cons c s ih =>
    rw [List.forall_mem_cons] at h
    obtain ⟨⟨hany, hone, hescape⟩, h⟩ := h
    rw [List.cons_append, tokens_cons hany hone hescape, ih h]
    rfl

/-! ### Matching -/

theorem matchesTokens_any : matchesTokens (.any :: rest) text = true ↔
    ∃ u v, text = u ++ v ∧ matchesTokens rest v = true := by
  rw [matchesTokens, List.any_eq_true]
  simp only [List.mem_tails]
  constructor
  · rintro ⟨v, ⟨u, rfl⟩, h⟩
    exact ⟨u, v, rfl, h⟩
  · rintro ⟨u, v, rfl, h⟩
    exact ⟨v, ⟨u, rfl⟩, h⟩

theorem matchesTokens_literal :
    matchesTokens (literal s ++ rest) text = true ↔
      ∃ v, text = s ++ v ∧ matchesTokens rest v = true := by
  induction s generalizing text with
  | nil => simp [literal]
  | cons c s ih =>
    have hcons : literal (c :: s) ++ rest = .char c :: (literal s ++ rest) := rfl
    cases text with
    | nil => simp [hcons, matchesTokens]
    | cons c' text =>
      rw [hcons, matchesTokens, Bool.and_eq_true, decide_eq_true_eq, ih]
      constructor
      · rintro ⟨rfl, v, rfl, h⟩
        exact ⟨v, rfl, h⟩
      · rintro ⟨v, heq, h⟩
        obtain ⟨rfl, rfl⟩ := List.cons.inj heq
        exact ⟨rfl, v, rfl, h⟩

theorem matchesTokens_nil : matchesTokens [] text = true ↔ text = [] := by
  rw [matchesTokens, List.isEmpty_iff]

theorem matchesTokens_any_nil : matchesTokens [.any] text = true :=
  matchesTokens_any.mpr ⟨text, [], by simp, rfl⟩

/-- A text that starts with the literal. -/
theorem matchesTokens_literal_any :
    matchesTokens (literal s ++ [.any]) text = true ↔ s <+: text := by
  rw [matchesTokens_literal]
  exact ⟨fun ⟨v, heq, _⟩ => ⟨v, heq.symm⟩, fun ⟨v, heq⟩ => ⟨v, heq.symm, matchesTokens_any_nil⟩⟩

/-- A text that ends with the literal. -/
theorem matchesTokens_any_literal :
    matchesTokens (.any :: literal s) text = true ↔ s <:+ text := by
  rw [matchesTokens_any, ← List.append_nil (literal s)]
  simp only [matchesTokens_literal, matchesTokens_nil]
  constructor
  · rintro ⟨u, v, rfl, w, rfl, rfl⟩
    exact ⟨u, by simp⟩
  · rintro ⟨u, rfl⟩
    exact ⟨u, s, rfl, [], by simp, rfl⟩

/-- A text that has the literal in it. -/
theorem matchesTokens_any_literal_any :
    matchesTokens (.any :: (literal s ++ [.any])) text = true ↔ s <:+: text := by
  rw [matchesTokens_any]
  simp only [matchesTokens_literal_any]
  constructor
  · rintro ⟨u, v, rfl, w, rfl⟩
    exact ⟨u, w, by simp⟩
  · rintro ⟨u, w, rfl⟩
    exact ⟨u, s ++ w, by simp, w, rfl⟩

theorem matchesTokens_map_least (fold : Char → Char) (rest : List Token) :
    matchesTokens (rest.map (Token.fold fold)) ((least rest).map fold) = true := by
  induction rest with
  | nil => rfl
  | cons token rest ih =>
    cases token with
    | any => exact matchesTokens_any.mpr ⟨[], _, rfl, ih⟩
    | one => exact ih
    | char c => simpa [least, Token.fold, matchesTokens] using ih

theorem Token.fold_id : Token.fold id = id := by
  funext token
  cases token <;> rfl

theorem matchesTokens_least (rest : List Token) : matchesTokens rest (least rest) = true := by
  simpa [Token.fold_id] using matchesTokens_map_least id rest

/-- The pattern that finds a text without special characters anywhere. -/
theorem Collation.matchesPattern_infix (collation : Collation)
    (h : ∀ c ∈ s, c ≠ '%' ∧ c ≠ '_' ∧ c ≠ '\\') :
    collation.matchesPattern ('%' :: s ++ ['%']) text = true ↔ collation.Contains text s := by
  have htokens : (tokens ('%' :: s ++ ['%'])).map (Token.fold collation.fold) =
      .any :: (literal (s.map collation.fold) ++ [.any]) := by
    have hplain : tokens ('%' :: s ++ ['%']) = .any :: (literal s ++ [.any]) :=
      congrArg _ (tokens_append h ['%'])
    rw [hplain]
    simp [literal, Token.fold, Function.comp_def]
  rw [Collation.matchesPattern, htokens, matchesTokens_any_literal_any, Collation.Contains]

/-- A least text is no longer than the pattern, and a `%` at the end adds nothing to it. -/
theorem length_least_tokens {q : List Char} (hq : q = [] ∨ q = ['%']) : ∀ u : List Char,
    (least (tokens (u ++ q))).length ≤ u.length
  | [] => by rcases hq with rfl | rfl <;> exact le_rfl
  | [c] => by
    by_cases hany : c = '%'
    · subst hany
      rcases hq with rfl | rfl <;> simp [tokens, least]
    by_cases hone : c = '_'
    · subst hone
      rcases hq with rfl | rfl <;> simp [tokens, least]
    by_cases hescape : c = '\\'
    · subst hescape
      rcases hq with rfl | rfl <;> simp [tokens, least]
    · rw [List.cons_append, List.nil_append, tokens_cons hany hone hescape]
      rcases hq with rfl | rfl <;> simp [tokens, least]
  | c :: d :: u => by
    have hrest := length_least_tokens hq (d :: u)
    by_cases hany : c = '%'
    · subst hany
      exact hrest.trans (Nat.le_succ _)
    by_cases hone : c = '_'
    · subst hone
      exact Nat.succ_le_succ hrest
    by_cases hescape : c = '\\'
    · subst hescape
      exact Nat.succ_le_succ ((length_least_tokens hq u).trans (Nat.le_succ _))
    · rw [List.cons_append, tokens_cons hany hone hescape]
      exact Nat.succ_le_succ hrest

end Tokens

end Like

end SwaptoshiService
