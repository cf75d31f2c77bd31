import SwaptoshiService.Lib.Like

/-!
# Lexing of SQL texts

A machine reads a text character by character: words and symbols, literals in quotes, in which a
doubled quote and a backslash stand for characters, names in backticks, and comments
(`-- `, `#`, `/* */`). What is read extends the tokens that there are (`run_after`), so texts that
begin and end outside of a token are read one after the other (`run_append_closed`).

`run_plain` is what a literal without quotes and backslashes is read as. `run_between` is about
**any** text between `'%` and `%'`: the literal that is read, as a pattern of `LIKE`, has a least
text that is no longer than the given one, and is equal to it only if the given text has no special
character.
-/

namespace SwaptoshiService

namespace SqlLexer

/-! ### The machine -/

inductive Token
  | word (text : List Char)
  | symbol (c : Char)
  | literal (content : List Char)
  | name (text : List Char)
  /-- A literal, a name or a comment without an end. -/
  | broken
  deriving DecidableEq

/-- Where the machine is; literals know their quote. -/
inductive Mode
  | code
  | word
  | literal (q : Char)
  /-- After a quote in a literal: its end, or the first of two quotes. -/
  | quote (q : Char)
  | escape (q : Char)
  | name
  | backtick
  | dash
  | dashes
  | lineComment
  | slash
  | blockComment
  | star
  deriving DecidableEq

structure LexState where
  mode : Mode
  /-- What has been read of the current token. -/
  current : List Char
  tokens : List Token
  deriving DecidableEq

/-- Letters, digits and what is read with them. -/
def isWordChar (c : Char) : Bool := c.isAlphanum || c = '_' || c = '$' || 128 ≤ c.toNat

def isBlank (c : Char) : Bool := c = ' ' || c = '\n' || c = '\t' || c = '\r'

/-- The characters that a backslash and a character stand for. Before the wildcards of `LIKE` the
backslash stays. -/
def escaped (c : Char) : List Char :=
  if c = '%' ∨ c = '_' then ['\\', c]
  else if c = '0' then [Char.ofNat 0]
  else if c = 'b' then [Char.ofNat 8]
  else if c = 'n' then ['\n']
  else if c = 'r' then ['\r']
  else if c = 't' then ['\t']
  else if c = 'Z' then [Char.ofNat 26]
  else [c]

/-- A character outside of tokens. -/
def start (tokens : List Token) (c : Char) : LexState :=
  if isWordChar c then ⟨.word, [c], tokens⟩
  else if c = '\'' ∨ c = '"' then ⟨.literal c, [], tokens⟩
  else if c = '`' then ⟨.name, [], tokens⟩
  else if c = '#' then ⟨.lineComment, [], tokens⟩
  else if c = '-' then ⟨.dash, [], tokens⟩
  else if c = '/' then ⟨.slash, [], tokens⟩
  else if isBlank c then ⟨.code, [], tokens⟩
  else ⟨.code, [], tokens ++ [.symbol c]⟩

/-- After one minus, or the second of three. -/
def afterDash (tokens : List Token) (c : Char) : LexState :=
  if c = '-' then ⟨.dashes, [], tokens⟩ else start (tokens ++ [.symbol '-']) c

def step : LexState → Char → LexState
  | ⟨.code, _, tokens⟩, c => start tokens c
  | ⟨.word, text, tokens⟩, c =>
    if isWordChar c then ⟨.word, text ++ [c], tokens⟩ else start (tokens ++ [.word text]) c
  | ⟨.literal q, text, tokens⟩, c =>
    if c = q then ⟨.quote q, text, tokens⟩
    else if c = '\\' then ⟨.escape q, text, tokens⟩
    else ⟨.literal q, text ++ [c], tokens⟩
  | ⟨.quote q, text, tokens⟩, c =>
    if c = q then ⟨.literal q, text ++ [c], tokens⟩ else start (tokens ++ [.literal text]) c
  | ⟨.escape q, text, tokens⟩, c => ⟨.literal q, text ++ escaped c, tokens⟩
  | ⟨.name, text, tokens⟩, c =>
    if c = '`' then ⟨.backtick, text, tokens⟩ else ⟨.name, text ++ [c], tokens⟩
  | ⟨.backtick, text, tokens⟩, c =>
    if c = '`' then ⟨.name, text ++ [c], tokens⟩ else start (tokens ++ [.name text]) c
  | ⟨.dash, _, tokens⟩, c => afterDash tokens c
  -- Two minus are a comment only before a blank.
  | ⟨.dashes, _, tokens⟩, c =>
    if c = '\n' then ⟨.code, [], tokens⟩
    else if isBlank c then ⟨.lineComment, [], tokens⟩
    else afterDash (tokens ++ [.symbol '-']) c
  | ⟨.lineComment, _, tokens⟩, c =>
    if c = '\n' then ⟨.code, [], tokens⟩ else ⟨.lineComment, [], tokens⟩
  | ⟨.slash, _, tokens⟩, c =>
    if c = '*' then ⟨.blockComment, [], tokens⟩ else start (tokens ++ [.symbol '/']) c
  | ⟨.blockComment, _, tokens⟩, c =>
    if c = '*' then ⟨.star, [], tokens⟩ else ⟨.blockComment, [], tokens⟩
  | ⟨.star, _, tokens⟩, c =>
    if c = '/' then ⟨.code, [], tokens⟩
    else if c = '*' then ⟨.star, [], tokens⟩
    else ⟨.blockComment, [], tokens⟩

def run : LexState → List Char → LexState
  | σ, [] => σ
  | σ, c :: text => run (step σ c) text

/-- The tokens at the end of the text. -/
def finish : LexState → List Token
  | ⟨.code, _, tokens⟩ => tokens
  | ⟨.word, text, tokens⟩ => tokens ++ [.word text]
  | ⟨.quote _, text, tokens⟩ => tokens ++ [.literal text]
  | ⟨.backtick, text, tokens⟩ => tokens ++ [.name text]
  | ⟨.dash, _, tokens⟩ => tokens ++ [.symbol '-']
  | ⟨.dashes, _, tokens⟩ => tokens
  | ⟨.lineComment, _, tokens⟩ => tokens
  | ⟨.slash, _, tokens⟩ => tokens ++ [.symbol '/']
  | ⟨_, _, tokens⟩ => tokens ++ [.broken]

/-- The tokens of a text. -/
def lex (text : List Char) : List Token := finish (run ⟨.code, [], []⟩ text)

/-! ### Tokens that there are -/

section After

variable {σ : LexState} {T : List Token} {text rest : List Char} {c : Char}

/-- The state, after other tokens. -/
def LexState.after (T : List Token) (σ : LexState) : LexState := { σ with tokens := T ++ σ.tokens }

theorem start_after (T T' : List Token) (c : Char) : start (T ++ T') c = (start T' c).after T := by
  rw [start, start]
  simp only [apply_ite (LexState.after T)]
  simp only [LexState.after, List.append_assoc]

theorem afterDash_after (T T' : List Token) (c : Char) :
    afterDash (T ++ T') c = (afterDash T' c).after T := by
  rw [afterDash, afterDash]
  split
  · rfl
  · rw [List.append_assoc, start_after]

/-- Tokens that there are are left alone. -/
theorem step_after (T : List Token) (σ : LexState) (c : Char) :
    step (σ.after T) c = (step σ c).after T := by
  obtain ⟨mode, text, T'⟩ := σ
  cases mode with
  | code => exact start_after T T' c
  | dash => exact afterDash_after T T' c
  | escape q => rfl
  | word | quote q | backtick | slash =>
    simp only [LexState.after, step]
    split
    · rfl
    · rw [List.append_assoc, start_after]
      rfl
  | literal q | star | dashes =>
    simp only [LexState.after, step]
    split
    · rfl
    · split
      · rfl
      · first
        | rfl
        | rw [List.append_assoc, afterDash_after]
          rfl
  | name | lineComment | blockComment =>
    simp only [LexState.after, step]
    split <;> rfl

theorem run_after (T : List Token) (σ : LexState) (text : List Char) :
    run (σ.after T) text = (run σ text).after T := by
  induction text generalizing σ with
  | nil => rfl
  | cons c text ih => rw [run, step_after, ih, run]

theorem run_append (σ : LexState) (text rest : List Char) :
    run σ (text ++ rest) = run (run σ text) rest := by
  induction text generalizing σ with
  | nil => rfl
  | cons c text ih => exact ih (step σ c)

theorem finish_after (T : List Token) (σ : LexState) : finish (σ.after T) = T ++ finish σ := by
  obtain ⟨mode, text, T'⟩ := σ
  cases mode <;> first | rfl | exact List.append_assoc ..

/-- The tokens of the rest follow. -/
theorem finish_run (T : List Token) (text : List Char) :
    finish (run ⟨.code, [], T⟩ text) = T ++ lex text := by
  have h := run_after T ⟨.code, [], []⟩ text
  rw [LexState.after, List.append_nil] at h
  rw [h, finish_after, lex]

end After

/-! ### Code without literals -/

def Token.isLiteral : Token → Bool
  | .literal _ => true
  | _ => false

/-- A text begins and ends outside of tokens, and has no literals. -/
def closed (text : List Char) : Bool :=
  (text.head?.any (· ≠ '\'')) && match run ⟨.code, [], []⟩ text with
    | ⟨.code, [], tokens⟩ => tokens.all fun t => !t.isLiteral
    | _ => false

/-- The tokens of code. -/
def codeTokens (text : List Char) : List Token := (run ⟨.code, [], []⟩ text).tokens

/-- What is checked. -/
structure Closed (text : List Char) : Prop where
  ne_quote : ∃ c rest, text = c :: rest ∧ c ≠ '\''
  run_eq : run ⟨.code, [], []⟩ text = ⟨.code, [], codeTokens text⟩
  no_literal : ∀ t ∈ codeTokens text, t.isLiteral = false

theorem closed_of_check {text : List Char} (h : closed text = true) : Closed text := by
  rw [closed, Bool.and_eq_true] at h
  obtain ⟨hhead, h⟩ := h
  split at h
  · rename_i tokens hrun
    have htokens : codeTokens text = tokens := congrArg LexState.tokens hrun
    refine ⟨?_, ?_, ?_⟩
    · cases text with
      | nil => exact absurd hhead Bool.false_ne_true
      | cons c rest => exact ⟨c, rest, rfl, of_decide_eq_true hhead⟩
    · rw [hrun, htokens]
    · intro t ht
      rw [htokens] at ht
      simpa using List.all_eq_true.mp h t ht
  · exact absurd h Bool.false_ne_true

section Code

variable {text rest : List Char} {T : List Token} {q c : Char}

theorem run_closed (h : Closed text) (T : List Token) :
    run ⟨.code, [], T⟩ text = ⟨.code, [], T ++ codeTokens text⟩ := by
  have hafter := run_after T ⟨.code, [], []⟩ text
  rw [LexState.after, List.append_nil, h.run_eq] at hafter
  exact hafter

theorem codeTokens_append (h : Closed text) (h' : Closed rest) :
    codeTokens (text ++ rest) = codeTokens text ++ codeTokens rest := by
  rw [codeTokens, run_append, h.run_eq, run_closed h']

/-- Pieces of code are read one after the other. -/
theorem Closed.append (h : Closed text) (h' : Closed rest) : Closed (text ++ rest) := by
  obtain ⟨c, tail, rfl, hne⟩ := h.ne_quote
  refine ⟨⟨c, tail ++ rest, rfl, hne⟩, ?_, ?_⟩
  · rw [codeTokens_append h h', run_append, h.run_eq, run_closed h']
  · rw [codeTokens_append h h']
    exact List.forall_mem_append.mpr ⟨h.no_literal, h'.no_literal⟩

/-- A quote is the end of a literal if no other one follows. -/
theorem run_quote (hne : c ≠ q) (content : List Char) (T : List Token) (text : List Char) :
    run ⟨.quote q, content, T⟩ (c :: text) =
      run ⟨.code, [], T ++ [.literal content]⟩ (c :: text) := by
  rw [run, run, step, step, if_neg hne]

/-- Characters that stand for themselves in a literal. -/
theorem run_plain (h : ∀ c ∈ text, c ≠ '\'' ∧ c ≠ '\\') (content : List Char) (T : List Token) :
    run ⟨.literal '\'', content, T⟩ text = ⟨.literal '\'', content ++ text, T⟩ := by
  induction text generalizing content with
  | nil => rw [run, List.append_nil]
  | cons c text ih =>
    rw [List.forall_mem_cons] at h
    rw [run, step, if_neg h.1.1, if_neg h.1.2, ih h.2, List.append_assoc, List.singleton_append]

/-- A literal is read, up to the quote that ends it. -/
theorem run_literal (h : ∀ c ∈ text, c ≠ '\'' ∧ c ≠ '\\') (T : List Token) :
    run ⟨.code, [], T⟩ ('\'' :: text ++ ['\'']) = ⟨.quote '\'', text, T⟩ := by
  have hopen : step ⟨.code, [], T⟩ '\'' = ⟨.literal '\'', [], T⟩ := rfl
  rw [List.cons_append, run, hopen, run_append, run_plain h]
  rfl

end Code

/-! ### Any text in a literal -/

/-- No character of the text is special in literals or in patterns. -/
def Plain (s : List Char) : Prop := ∀ c ∈ s, c ≠ '\'' ∧ c ≠ '\\' ∧ c ≠ '%' ∧ c ≠ '_'

instance (s : List Char) : Decidable (Plain s) := List.decidableBAll _ s

/-- What the literal of a text and a `%` is read as: either it ends within the text, or there is a
`%` at the end. It is the text itself, up to the weights of a collation, only if that is plain. -/
structure Reads (s u : List Char) : Prop where
  short : u.length < s.length ∨ ∃ u', u = u' ++ ['%'] ∧ u'.length ≤ s.length
  plain : ∀ collation : Like.Collation,
    (Like.least (Like.tokens u)).map collation.fold = s.map collation.fold → Plain s

theorem Reads.length_le {s u : List Char} (h : Reads s u) :
    (Like.least (Like.tokens u)).length ≤ s.length := by
  rcases h.short with hlt | ⟨u', rfl, hle⟩
  · have hleast := Like.length_least_tokens (.inl rfl) u
    rw [List.append_nil] at hleast
    omega
  · exact (Like.length_least_tokens (.inr rfl) u').trans hle

/-- A text of another length. -/
theorem Reads.of_length_lt {s u : List Char}
    (hshort : u.length < s.length ∨ ∃ u', u = u' ++ ['%'] ∧ u'.length ≤ s.length)
    (hlt : (Like.least (Like.tokens u)).length < s.length) : Reads s u :=
  ⟨hshort, fun _ heq => absurd (congrArg List.length heq) (by simpa using hlt.ne)⟩

/-- A literal that ends within the text. -/
theorem reads_nil {s : List Char} (hne : s ≠ []) : Reads s [] :=
  .of_length_lt (.inl (List.length_pos_iff.mpr hne)) (List.length_pos_iff.mpr hne)

/-- Characters before the literal that is read. -/
theorem Reads.short_append {s u : List Char} (h : Reads s u) {x y : List Char}
    (hle : y.length ≤ x.length) : (y ++ u).length < (x ++ s).length ∨
      ∃ u', y ++ u = u' ++ ['%'] ∧ u'.length ≤ (x ++ s).length := by
  rcases h.short with hlt | ⟨u', rfl, hu'⟩
  · left
    rw [List.length_append, List.length_append]
    omega
  · right
    refine ⟨y ++ u', (List.append_assoc ..).symm, ?_⟩
    rw [List.length_append, List.length_append]
    omega

/-- A character before the literal that is read makes its least text longer by one at most. -/
theorem Reads.length_cons_le {s u : List Char} (h : Reads s u) (e : Char) :
    (Like.least (Like.tokens (e :: u))).length ≤ s.length + 1 := by
  rcases h.short with hlt | ⟨u', rfl, hle⟩
  · have hleast := Like.length_least_tokens (.inl rfl) (e :: u)
    rw [List.append_nil, List.length_cons] at hleast
    omega
  · exact (Like.length_least_tokens (.inr rfl) (e :: u')).trans (Nat.succ_le_succ hle)

/-- A character that is read as it is. -/
theorem Reads.cons {s u : List Char} (h : Reads s u) {c : Char} (hquote : c ≠ '\'')
    (hescape : c ≠ '\\') : Reads (c :: s) (c :: u) := by
  refine ⟨h.short_append (x := [c]) (y := [c]) le_rfl, fun collation heq => ?_⟩
  by_cases hany : c = '%'
  · subst hany
    have hlength := congrArg List.length heq
    rw [Like.tokens, Like.least, List.length_map, List.length_map] at hlength
    exact absurd h.length_le (by simp [hlength])
  by_cases hone : c = '_'
  · subst hone
    exact absurd (List.cons.inj heq).1 collation.underscore
  rw [Like.tokens_cons hany hone hescape] at heq
  exact List.forall_mem_cons.mpr
    ⟨⟨hquote, hescape, hany, hone⟩, h.plain collation (List.cons.inj heq).2⟩

/-- Two quotes are read as one. -/
theorem Reads.doubled {s u : List Char} (h : Reads s u) :
    Reads ('\'' :: '\'' :: s) ('\'' :: u) :=
  .of_length_lt (h.short_append (x := ['\'', '\'']) (y := ['\'']) (by decide))
    (Nat.lt_succ_of_le (h.length_cons_le '\''))

/-- A backslash and a character are read as one, or the wildcard is not the backslash. -/
theorem Reads.escape {s u : List Char} (h : Reads s u) (d : Char) :
    Reads ('\\' :: d :: s) (escaped d ++ u) := by
  by_cases hwild : d = '%' ∨ d = '_'
  · have hescaped : escaped d = ['\\', d] := if_pos hwild
    rw [hescaped]
    refine .of_length_lt (h.short_append (x := ['\\', d]) (y := ['\\', d]) le_rfl) ?_
    have hleast : Like.least (Like.tokens (['\\', d] ++ u)) = d :: Like.least (Like.tokens u) := by
      rcases hwild with rfl | rfl <;> rfl
    rw [hleast]
    exact Nat.lt_succ_of_le (Nat.succ_le_succ h.length_le)
  · obtain ⟨e, he⟩ : ∃ e, escaped d = [e] := by
      fun_cases escaped d with
      | case1 h => exact absurd h hwild
      | _ => exact ⟨_, rfl⟩
    rw [he]
    exact .of_length_lt (h.short_append (x := ['\\', d]) (y := [e]) (Nat.le_succ 1))
      (Nat.lt_succ_of_le (h.length_cons_le e))

/-- **What any text in a literal is read as.** -/
theorem run_between {b : Char} (hb : b ≠ '\'') (rest : List Char) (T : List Token) :
    ∀ (s x : List Char), ∃ u d r, d ≠ '\'' ∧ Reads s u ∧
      run ⟨.literal '\'', x, T⟩ (s ++ '%' :: '\'' :: b :: rest) =
        run ⟨.quote '\'', x ++ u, T⟩ (d :: r)
  | [], x => ⟨['%'], b, rest, hb, ⟨.inr ⟨[], rfl, le_rfl⟩,
      fun _ _ c hc => absurd hc List.not_mem_nil⟩,
      rfl⟩
  | [c], x => by
    by_cases hquote : c = '\''
    · subst hquote
      refine ⟨[], '%', '\'' :: b :: rest, by decide, reads_nil (List.cons_ne_nil _ _), ?_⟩
      rw [List.append_nil]
      rfl
    by_cases hescape : c = '\\'
    · subst hescape
      exact ⟨['\\', '%'], b, rest, hb, ⟨.inr ⟨['\\'], rfl, le_rfl⟩,
        fun collation heq => absurd (List.cons.inj heq).1 collation.percent⟩, rfl⟩
    obtain ⟨u, d, r, hd, hreads, hrun⟩ := run_between hb rest T [] (x ++ [c])
    refine ⟨c :: u, d, r, hd, hreads.cons hquote hescape, ?_⟩
    rw [List.cons_append, run, step, if_neg hquote, if_neg hescape, hrun, List.append_assoc,
      List.singleton_append]
  | c :: d :: s, x => by
    by_cases hquote : c = '\''
    · subst hquote
      by_cases hdoubled : d = '\''
      · subst hdoubled
        obtain ⟨u, e, r, he, hreads, hrun⟩ := run_between hb rest T s (x ++ ['\''])
        refine ⟨'\'' :: u, e, r, he, hreads.doubled, ?_⟩
        rw [List.append_assoc] at hrun
        exact hrun
      -- A single quote ends the literal.
      · refine ⟨[], d, s ++ '%' :: '\'' :: b :: rest, hdoubled,
          reads_nil (List.cons_ne_nil _ _), ?_⟩
        rw [List.append_nil]
        rfl
    by_cases hescape : c = '\\'
    · subst hescape
      obtain ⟨u, e, r, he, hreads, hrun⟩ := run_between hb rest T s (x ++ escaped d)
      refine ⟨escaped d ++ u, e, r, he, hreads.escape d, ?_⟩
      rw [List.append_assoc] at hrun
      exact hrun
    obtain ⟨u, e, r, he, hreads, hrun⟩ := run_between hb rest T (d :: s) (x ++ [c])
    refine ⟨c :: u, e, r, he, hreads.cons hquote hescape, ?_⟩
    rw [List.cons_append, run, step, if_neg hquote, if_neg hescape, hrun, List.append_assoc,
      List.singleton_append]

/-! ### Literals of `LIKE` -/

/-- The word `LIKE`. -/
def Token.isLike : Token → Bool
  | .word text => text.map Char.toUpper = ['L', 'I', 'K', 'E']
  | _ => false

/-- The literals that come directly after the word `LIKE`; the flag is for the token before. -/
def likeLiterals : Bool → List Token → List (List Char)
  | _, [] => []
  | true, .literal content :: tokens => content :: likeLiterals false tokens
  | _, t :: tokens => likeLiterals t.isLike tokens

/-- The last token is `LIKE`. -/
def endsLike (b : Bool) (tokens : List Token) : Bool := (tokens.getLast?.map Token.isLike).getD b

/-- The token, without what is in it if it is a literal. -/
def Token.shape : Token → Token
  | .literal _ => .literal []
  | t => t

section Literals

variable {tokens : List Token} {content : List Char} {b : Bool}

theorem likeLiterals_cons {t : Token} (h : b = false ∨ t.isLiteral = false) :
    likeLiterals b (t :: tokens) = likeLiterals t.isLike tokens := by
  cases t <;> cases b <;> first | rfl | simp [Token.isLiteral] at h

theorem likeLiterals_append (b : Bool) (tokens tokens' : List Token) :
    likeLiterals b (tokens ++ tokens') =
      likeLiterals b tokens ++ likeLiterals (endsLike b tokens) tokens' := by
  induction tokens generalizing b with
  | nil => rfl
  | cons t tokens ih =>
    have hends : endsLike b (t :: tokens) = endsLike t.isLike tokens := by
      rw [endsLike, endsLike, List.getLast?_cons]
      cases tokens.getLast? <;> rfl
    rw [List.cons_append, hends]
    by_cases h : b = false ∨ t.isLiteral = false
    · rw [likeLiterals_cons h, likeLiterals_cons h, ih]
    · obtain ⟨hb, ht⟩ := not_or.mp h
      obtain rfl := eq_true_of_ne_false hb
      cases t with
      | literal content => exact congrArg (content :: ·) (ih false)
      | word | symbol | name | broken => exact absurd rfl ht

/-- Code has no literals. -/
theorem likeLiterals_eq_nil (h : ∀ t ∈ tokens, t.isLiteral = false) (b : Bool) :
    likeLiterals b tokens = [] := by
  induction tokens generalizing b with
  | nil => rfl
  | cons t tokens ih =>
    rw [List.forall_mem_cons] at h
    rw [likeLiterals_cons (.inr h.1), ih h.2]

/-- Tokens of the same shape have as many literals of `LIKE`. -/
theorem length_likeLiterals (b : Bool) (tokens : List Token) :
    (likeLiterals b (tokens.map Token.shape)).length = (likeLiterals b tokens).length := by
  induction tokens generalizing b with
  | nil => rfl
  | cons t tokens ih =>
    cases t <;> cases b <;> first | exact ih _ | exact congrArg Nat.succ (ih false)

end Literals

end SqlLexer

end SwaptoshiService
