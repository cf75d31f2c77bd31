import SwaptoshiService.Lib.SqlLexer

/-!
# Statements with a text in their literals

A statement is code, with literals in it: values that are known not to end the literal, and the
text that somebody searches for, as `'%text%'` after `LIKE`. Code carries the proof that it begins
and ends outside of tokens.

A plain text leaves all tokens as they are (`Template.lex_text`). `Template.literalRight_iff`: the
literals of `LIKE` match the texts that contain the given one if and only if the given one is plain.
-/

namespace SwaptoshiService

namespace SqlLexer

/-! ### Code -/

/-- Code, and whether the word `LIKE` is at its end. -/
structure Code where
  text : List Char
  closed : Closed text
  like : Bool
  like_eq : ∀ b, endsLike b (codeTokens text) = like

/-- The checks of code. -/
def checkCode (text : List Char) (like : Bool) : Bool :=
  closed text && (codeTokens text).getLast?.any fun t => t.isLike = like

theorem toList_eq {s : String} {l : List Char} (h : s = String.ofList l) : s.toList = l := by
  rw [h, String.toList_ofList]

theorem endsLike_of_any {tokens : List Token} {like : Bool}
    (h : (tokens.getLast?.any fun t => t.isLike = like) = true) (b : Bool) :
    endsLike b tokens = like := by
  rw [endsLike]
  cases hlast : tokens.getLast? with
  | none =>
    rw [hlast] at h
    exact absurd h Bool.false_ne_true
  | some t =>
    rw [hlast] at h
    exact of_decide_eq_true h

/-- Code that has been checked. -/
def Code.ofString (s : String) (like : Bool) {l : List Char} (h : s = String.ofList l)
    (hcheck : checkCode l like = true) : Code where
  text := s.toList
  closed := by
    rw [checkCode, Bool.and_eq_true] at hcheck
    rw [toList_eq h]
    exact closed_of_check hcheck.1
  like := like
  like_eq := by
    rw [checkCode, Bool.and_eq_true] at hcheck
    rw [toList_eq h]
    exact endsLike_of_any hcheck.2

theorem endsLike_append (b : Bool) (tokens tokens' : List Token) :
    endsLike b (tokens ++ tokens') = endsLike (endsLike b tokens) tokens' := by
  rw [endsLike, endsLike, endsLike, List.getLast?_append]
  cases tokens'.getLast? <;> rfl

instance : Append Code where
  append x y :=
    { text := x.text ++ y.text
      closed := x.closed.append y.closed
      like := y.like
      like_eq := fun b => by
        rw [codeTokens_append x.closed y.closed, endsLike_append]
        exact y.like_eq _ }

/-- A number or a word that is put into code. -/
structure Value where
  negative : Bool
  chars : List Char
  ne_nil : chars ≠ []
  plain : ∀ c ∈ chars, isWordChar c = true ∨ c = '.'

def Value.text (v : Value) : List Char := (if v.negative then ['-'] else []) ++ v.chars

section Values

/-- In code, after something has been read: between tokens, in a word, or after a minus. -/
structure Outside (σ : LexState) : Prop where
  mode : σ.mode = .code ∧ σ.tokens ≠ [] ∨ σ.mode = .word ∨ σ.mode = .dash
  no_literal : ∀ t ∈ σ.tokens, t.isLiteral = false

theorem no_literal_concat {T : List Token} (h : ∀ t ∈ T, t.isLiteral = false) {t' : Token}
    (ht : t'.isLiteral = false) : ∀ t ∈ T ++ [t'], t.isLiteral = false :=
  List.forall_mem_append.mpr ⟨h, List.forall_mem_singleton.mpr ht⟩

theorem concat_ne_nil (T : List Token) (t : Token) : T ++ [t] ≠ [] :=
  List.append_ne_nil_of_right_ne_nil _ (List.cons_ne_nil _ _)

/-- A word character, or a point, outside of tokens. -/
theorem outside_start {T : List Token} (h : ∀ t ∈ T, t.isLiteral = false) {c : Char}
    (hc : isWordChar c = true ∨ c = '.') : Outside (start T c) := by
  by_cases hword : isWordChar c = true
  · rw [start, if_pos hword]
    exact ⟨.inr (.inl rfl), h⟩
  · obtain rfl := hc.resolve_left hword
    exact ⟨.inl ⟨rfl, concat_ne_nil T _⟩, no_literal_concat h rfl⟩

theorem outside_step {σ : LexState} (h : Outside σ) {c : Char}
    (hc : isWordChar c = true ∨ c = '.') : Outside (step σ c) := by
  obtain ⟨mode, text, T⟩ := σ
  obtain ⟨hmode, hT⟩ := h
  rcases hmode with ⟨rfl, -⟩ | rfl | rfl
  · exact outside_start hT hc
  · rw [step]
    split
    · exact ⟨.inr (.inl rfl), hT⟩
    · exact outside_start (no_literal_concat hT rfl) hc
  · have hdash : c ≠ '-' := by
      rintro rfl
      exact absurd hc (by decide)
    rw [step, afterDash, if_neg hdash]
    exact outside_start (no_literal_concat hT rfl) hc

theorem outside_run {σ : LexState} (h : Outside σ) {text : List Char}
    (htext : ∀ c ∈ text, isWordChar c = true ∨ c = '.') : Outside (run σ text) := by
  induction text generalizing σ with
  | nil => exact h
  | cons c text ih =>
    rw [List.forall_mem_cons] at htext
    exact ih (outside_step h htext.1) htext.2

/-- The characters that come after values. -/
def separators : List Char := [' ', '\n', ',', ')', ';']

theorem separators_plain : ∀ sep ∈ separators, isWordChar sep = false ∧ sep ≠ '-' := by
  simp only [separators, List.forall_mem_cons, List.not_mem_nil, false_imp_iff, implies_true]
  decide

/-- A separator outside of tokens. -/
theorem start_separator {sep : Char} (hsep : sep ∈ separators) {T : List Token} (hne : T ≠ [])
    (hT : ∀ t ∈ T, t.isLiteral = false) :
    ∃ T', start T sep = ⟨.code, [], T'⟩ ∧ T' ≠ [] ∧ ∀ t ∈ T', t.isLiteral = false := by
  simp only [separators, List.mem_cons, List.not_mem_nil, or_false] at hsep
  rcases hsep with rfl | rfl | rfl | rfl | rfl
  · exact ⟨T, rfl, hne, hT⟩
  · exact ⟨T, rfl, hne, hT⟩
  · exact ⟨_, rfl, concat_ne_nil T _, no_literal_concat hT rfl⟩
  · exact ⟨_, rfl, concat_ne_nil T _, no_literal_concat hT rfl⟩
  · exact ⟨_, rfl, concat_ne_nil T _, no_literal_concat hT rfl⟩

/-- A separator is the end of a token. -/
theorem step_separator {σ : LexState} (h : Outside σ) {sep : Char} (hsep : sep ∈ separators) :
    ∃ T, step σ sep = ⟨.code, [], T⟩ ∧ T ≠ [] ∧ ∀ t ∈ T, t.isLiteral = false := by
  obtain ⟨hword, hdash⟩ := separators_plain sep hsep
  obtain ⟨mode, text, T⟩ := σ
  obtain ⟨hmode, hT⟩ := h
  rcases hmode with ⟨rfl, hne⟩ | rfl | rfl
  · exact start_separator hsep hne hT
  · rw [step, hword, if_neg Bool.false_ne_true]
    exact start_separator hsep (concat_ne_nil T _) (no_literal_concat hT rfl)
  · rw [step, afterDash, if_neg hdash]
    exact start_separator hsep (concat_ne_nil T _) (no_literal_concat hT rfl)

theorem outside_value (v : Value) : Outside (run ⟨.code, [], []⟩ v.text) := by
  have hnone : ∀ t ∈ ([] : List Token), t.isLiteral = false := fun t ht => absurd ht List.not_mem_nil
  rw [Value.text]
  cases v.negative with
  | true => exact outside_run (σ := ⟨.dash, [], []⟩) ⟨.inr (.inr rfl), hnone⟩ v.plain
  | false =>
    obtain ⟨c, chars, hchars⟩ := List.exists_cons_of_ne_nil v.ne_nil
    have hplain := v.plain
    rw [hchars, List.forall_mem_cons] at hplain
    rw [hchars]
    exact outside_run (outside_start hnone hplain.1) hplain.2

/-- A value and the separator after it. -/
theorem run_value (v : Value) {sep : Char} (hsep : sep ∈ separators) :
    ∃ T, run ⟨.code, [], []⟩ (v.text ++ [sep]) = ⟨.code, [], T⟩ ∧ T ≠ [] ∧
      ∀ t ∈ T, t.isLiteral = false := by
  obtain ⟨T, hstep, hT⟩ := step_separator (outside_value v) hsep
  refine ⟨T, ?_, hT⟩
  rw [run_append]
  exact hstep

theorem closed_value (v : Value) {sep : Char} (hsep : sep ∈ separators) :
    Closed (v.text ++ [sep]) := by
  obtain ⟨T, hrun, -, hT⟩ := run_value v hsep
  have htokens : codeTokens (v.text ++ [sep]) = T := congrArg LexState.tokens hrun
  refine ⟨?_, by rw [hrun, htokens], by rwa [htokens]⟩
  rw [Value.text]
  cases v.negative with
  | true => exact ⟨'-', v.chars ++ [sep], rfl, by decide⟩
  | false =>
    obtain ⟨c, chars, hchars⟩ := List.exists_cons_of_ne_nil v.ne_nil
    have hplain := v.plain c (hchars ▸ List.mem_cons_self)
    refine ⟨c, chars ++ [sep], by rw [hchars]; rfl, ?_⟩
    rintro rfl
    exact absurd hplain (by decide)

end Values

/-- A value and the separator after it. -/
def Code.value (v : Value) (sep : Char) (hsep : sep ∈ separators) : Code where
  text := v.text ++ [sep]
  closed := closed_value v hsep
  like := endsLike false (codeTokens (v.text ++ [sep]))
  like_eq := by
    intro b
    obtain ⟨T, hrun, hne, -⟩ := run_value v hsep
    have htokens : codeTokens (v.text ++ [sep]) = T := congrArg LexState.tokens hrun
    obtain ⟨t, ht⟩ := List.getLast?_isSome.mpr hne |> Option.isSome_iff_exists.mp
    rw [htokens, endsLike, endsLike, ht]
    rfl

/-! ### Statements -/

/-- A value in quotes, with nothing that could end the literal. -/
structure Quoted where
  chars : List Char
  plain : ∀ c ∈ chars, c ≠ '\'' ∧ c ≠ '\\'

/-- What is in a literal: a value, or the text that is searched for. -/
inductive Part
  | quoted (x : Quoted)
  | term

def Part.raw (s : List Char) : Part → List Char
  | .quoted x => x.chars
  | .term => '%' :: s ++ ['%']

def Part.isTerm : Part → Bool
  | .quoted _ => false
  | .term => true

/-- The text is in the literals of `LIKE`, and the other values are in other literals. -/
def placed : Bool → List (Part × Code) → Bool
  | _, [] => true
  | like, (p, c) :: rest => (p.isTerm == like) && placed c.like rest

/-- A statement: code, and literals with the code after each of them. -/
structure Template where
  first : Code
  rest : List (Part × Code)
  placed : placed first.like rest = true

/-- The text of literals, and of the code after them. -/
def restText (s : List Char) (rest : List (Part × Code)) : List Char :=
  rest.flatMap fun p => '\'' :: p.1.raw s ++ '\'' :: p.2.text

def Template.text (t : Template) (s : List Char) : List Char := t.first.text ++ restText s t.rest

/-- How many literals the text is in. -/
def Template.holes (t : Template) : ℕ := t.rest.countP fun p => p.1.isTerm

theorem Template.holes_pos {t : Template} {c : Code} (h : (.term, c) ∈ t.rest) : 0 < t.holes :=
  List.countP_pos_iff.mpr ⟨_, h, rfl⟩

/-- The tokens of literals, and of the code after them. -/
def restTokens (s : List Char) (rest : List (Part × Code)) : List Token :=
  rest.flatMap fun p => .literal (p.1.raw s) :: codeTokens p.2.text

def Template.tokens (t : Template) (s : List Char) : List Token :=
  codeTokens t.first.text ++ restTokens s t.rest

section Statements

variable {s : List Char}

theorem Part.raw_plain (hs : Plain s) (p : Part) : ∀ c ∈ p.raw s, c ≠ '\'' ∧ c ≠ '\\' := by
  cases p with
  | quoted x => exact x.plain
  | term =>
    intro c hc
    rw [Part.raw, List.cons_append, List.mem_cons, List.mem_append, List.mem_singleton] at hc
    rcases hc with rfl | hc | rfl
    · decide
    · exact ⟨(hs c hc).1, (hs c hc).2.1⟩
    · decide

/-- A literal and the code after it. -/
theorem run_part {raw : List Char} (hraw : ∀ c ∈ raw, c ≠ '\'' ∧ c ≠ '\\') (c : Code)
    (T : List Token) : run ⟨.code, [], T⟩ ('\'' :: raw ++ '\'' :: c.text) =
      ⟨.code, [], T ++ .literal raw :: codeTokens c.text⟩ := by
  obtain ⟨d, tail, htext, hd⟩ := c.closed.ne_quote
  have hsplit : '\'' :: raw ++ '\'' :: c.text = ('\'' :: raw ++ ['\'']) ++ c.text := by simp
  rw [hsplit, run_append, run_literal hraw, htext, run_quote hd, ← htext, run_closed c.closed,
    List.append_assoc, List.singleton_append]

theorem run_rest (hs : Plain s) (rest : List (Part × Code)) (T : List Token) :
    run ⟨.code, [], T⟩ (restText s rest) = ⟨.code, [], T ++ restTokens s rest⟩ := by
  induction rest generalizing T with
  | nil => rw [restText, restTokens, List.flatMap_nil, List.flatMap_nil, List.append_nil, run]
  | cons p rest ih =>
    rw [restText, List.flatMap_cons, run_append, run_part (p.1.raw_plain hs), ← restText, ih,
      restTokens, restTokens, List.flatMap_cons, List.append_assoc]

/-- **A plain text leaves the tokens as they are**, and is in its literals. -/
theorem Template.lex_text (t : Template) (hs : Plain s) : lex (t.text s) = t.tokens s := by
  rw [lex, Template.text, run_append, t.first.closed.run_eq, run_rest hs]
  rfl

/-- The literals of `LIKE` are those that the text is in. -/
theorem likeLiterals_restTokens {rest : List (Part × Code)} {like : Bool}
    (hplaced : placed like rest = true) : likeLiterals like (restTokens s rest) =
      List.replicate (rest.countP fun p => p.1.isTerm) ('%' :: s ++ ['%']) := by
  induction rest generalizing like with
  | nil => rfl
  | cons p rest ih =>
    obtain ⟨part, c⟩ := p
    rw [placed, Bool.and_eq_true, beq_iff_eq] at hplaced
    have hrest : likeLiterals false (codeTokens c.text ++ restTokens s rest) =
        List.replicate (rest.countP fun p => p.1.isTerm) ('%' :: s ++ ['%']) := by
      rw [likeLiterals_append, likeLiterals_eq_nil c.closed.no_literal, c.like_eq, List.nil_append,
        ih hplaced.2]
    rw [restTokens, List.flatMap_cons, ← restTokens, List.cons_append]
    cases part with
    | quoted x =>
      obtain rfl : like = false := hplaced.1.symm
      rw [likeLiterals_cons (.inl rfl), List.countP_cons_of_neg (by simp [Part.isTerm])]
      exact hrest
    | term =>
      obtain rfl : like = true := hplaced.1.symm
      rw [List.countP_cons_of_pos rfl, List.replicate_succ]
      exact congrArg _ hrest

theorem Template.likeLiterals_tokens (t : Template) (s : List Char) :
    likeLiterals false (t.tokens s) = List.replicate t.holes ('%' :: s ++ ['%']) := by
  rw [Template.tokens, likeLiterals_append, likeLiterals_eq_nil t.first.closed.no_literal,
    t.first.like_eq, List.nil_append, likeLiterals_restTokens t.placed, Template.holes]

/-- The shape of the tokens does not depend on the text. -/
theorem Template.shape_tokens (t : Template) (s s' : List Char) :
    (t.tokens s).map Token.shape = (t.tokens s').map Token.shape := by
  rw [Template.tokens, Template.tokens, List.map_append, List.map_append, restTokens, restTokens,
    List.map_flatMap, List.map_flatMap]
  rfl

/-! ### Any text -/

/-- The literals of `LIKE` match the texts that contain the given one, as the collation compares
characters. -/
def LiteralRight (collation : Like.Collation) (s text : List Char) : Prop :=
  ∀ x ∈ likeLiterals false (lex text), ∀ v,
    collation.matchesPattern x v = true ↔ collation.Contains v s

/-- A text in a literal of `LIKE`, however it is read. -/
theorem exists_reads {rest : List (Part × Code)} {like : Bool} (hplaced : placed like rest = true)
    (hhole : 0 < rest.countP fun p => p.1.isTerm) (s : List Char) :
    ∃ u, Reads s u ∧ '%' :: u ∈ likeLiterals like (lex (restText s rest)) := by
  induction rest generalizing like with
  | nil => exact absurd hhole (Nat.lt_irrefl 0)
  | cons p rest ih =>
    obtain ⟨part, c⟩ := p
    rw [placed, Bool.and_eq_true, beq_iff_eq] at hplaced
    cases part with
    | quoted x =>
      obtain rfl : like = false := hplaced.1.symm
      rw [List.countP_cons_of_neg (by simp [Part.isTerm])] at hhole
      obtain ⟨u, hreads, hmem⟩ := ih hplaced.2 hhole
      refine ⟨u, hreads, ?_⟩
      rw [restText, List.flatMap_cons, ← restText, lex, run_append, Part.raw, run_part x.plain,
        List.nil_append, finish_run, List.cons_append, likeLiterals_cons (.inl rfl)]
      change _ ∈ likeLiterals false (codeTokens c.text ++ _)
      rw [likeLiterals_append, likeLiterals_eq_nil c.closed.no_literal, c.like_eq, List.nil_append]
      exact hmem
    | term =>
      obtain rfl : like = true := hplaced.1.symm
      obtain ⟨d, tail, htext, hd⟩ := c.closed.ne_quote
      obtain ⟨u, e, r, he, hreads, hrun⟩ := run_between hd (tail ++ restText s rest) [] s ['%']
      have hsplit : restText s ((.term, c) :: rest) =
          '\'' :: '%' :: (s ++ '%' :: '\'' :: d :: (tail ++ restText s rest)) := by
        rw [restText, List.flatMap_cons, ← restText, Part.raw, htext]
        simp
      have hopen : lex (restText s ((.term, c) :: rest)) =
          .literal ('%' :: u) :: lex (e :: r) := by
        rw [lex, hsplit]
        refine (congrArg finish (hrun.trans (run_quote he _ _ _))).trans (finish_run _ _)
      exact ⟨u, hreads, by rw [hopen]; exact List.mem_cons_self⟩

/-- A statement without the text. -/
theorem Template.text_eq_of_holes {t : Template} (h : t.holes = 0) (s s' : List Char) :
    t.text s = t.text s' := by
  rw [Template.holes, List.countP_eq_zero] at h
  rw [Template.text, Template.text, restText, restText]
  refine congrArg _ (List.flatMap_congr fun p hp => ?_)
  cases hpart : p.1 with
  | quoted x => rfl
  | term => exact absurd (by rw [hpart]; rfl) (h p hp)

theorem plain_nil : Plain [] := fun _ hc => absurd hc List.not_mem_nil

/-- **The literals of `LIKE` are right** if and only if the text is in none, or is plain. -/
theorem Template.literalRight_iff (collation : Like.Collation) (t : Template) (s : List Char) :
    LiteralRight collation s (t.text s) ↔ (0 < t.holes → Plain s) := by
  constructor
  · intro hright hholes
    obtain ⟨u, hreads, hmem⟩ := exists_reads t.placed hholes s
    have hlike : '%' :: u ∈ likeLiterals false (lex (t.text s)) := by
      rw [lex, Template.text, run_append, t.first.closed.run_eq, finish_run, likeLiterals_append,
        likeLiterals_eq_nil t.first.closed.no_literal, t.first.like_eq, List.nil_append]
      exact hmem
    -- The least text that is matched contains the given one, and is no longer.
    have hcontained := (hright _ hlike _).mp (Like.matchesTokens_map_least collation.fold _)
    have hlength : ((Like.least (Like.tokens u)).map collation.fold).length ≤
        (s.map collation.fold).length := by
      simpa only [List.length_map] using hreads.length_le
    exact hreads.plain collation (hcontained.sublist.eq_of_length_le hlength).symm
  · intro hplain x hx v
    rcases Nat.eq_zero_or_pos t.holes with hzero | hpos
    · rw [t.text_eq_of_holes hzero s [], t.lex_text plain_nil, t.likeLiterals_tokens, hzero] at hx
      exact absurd hx List.not_mem_nil
    · have hs := hplain hpos
      rw [t.lex_text hs, t.likeLiterals_tokens] at hx
      rw [List.eq_of_mem_replicate hx]
      exact collation.matchesPattern_infix fun c hc =>
        ⟨(hs c hc).2.2.1, (hs c hc).2.2.2, (hs c hc).2.1⟩

end Statements

/-! ### Searches -/

/-- The statement for no text, and the one for a text. -/
structure Search where
  without : Template
  «with» : Template
  holes_without : without.holes = 0
  holes_with : 0 < «with».holes

/-- The text of the statement. -/
def Search.text (q : Search) (s : List Char) : List Char :=
  if s = [] then q.without.text [] else q.with.text s

/-- Two texts have the same tokens, up to what is in literals. -/
def SameTokens (text text' : List Char) : Prop :=
  (lex text).map Token.shape = (lex text').map Token.shape

section Searches

variable (collation : Like.Collation) (q : Search) (s s' : List Char)

theorem Search.literalRight_iff : LiteralRight collation s (q.text s) ↔ Plain s := by
  rw [Search.text]
  split
  · rename_i hs
    rw [hs, Template.literalRight_iff, q.holes_without]
    exact iff_of_true (fun h => absurd h (Nat.lt_irrefl 0)) plain_nil
  · rw [Template.literalRight_iff]
    exact ⟨fun h => h q.holes_with, fun h _ => h⟩

/-- The number of literals of `LIKE`, for a plain text. -/
theorem Search.length_likeLiterals (hs : Plain s) :
    (likeLiterals false (lex (q.text s))).length = if s = [] then 0 else q.with.holes := by
  rw [Search.text]
  split
  · rw [Template.lex_text _ plain_nil, Template.likeLiterals_tokens, List.length_replicate,
      q.holes_without]
  · rw [Template.lex_text _ hs, Template.likeLiterals_tokens, List.length_replicate]

/-- **A search is safe** for two texts if and only if both are plain, and none or both are empty. -/
theorem Search.safe_iff : (SameTokens (q.text s) (q.text s') ∧
    LiteralRight collation s (q.text s) ∧ LiteralRight collation s' (q.text s')) ↔
      Plain s ∧ Plain s' ∧ (s = [] ↔ s' = []) := by
  rw [q.literalRight_iff, q.literalRight_iff]
  constructor
  · rintro ⟨hsame, hs, hs'⟩
    refine ⟨hs, hs', ?_⟩
    have hlength : (likeLiterals false (lex (q.text s))).length =
        (likeLiterals false (lex (q.text s'))).length := by
      rw [← SqlLexer.length_likeLiterals, hsame, SqlLexer.length_likeLiterals]
    rw [q.length_likeLiterals s hs, q.length_likeLiterals s' hs'] at hlength
    have hpos := q.holes_with
    by_cases h : s = [] <;> by_cases h' : s' = [] <;>
      simp only [h, h', if_true, if_false] at hlength ⊢
    · omega
    · omega
  · rintro ⟨hs, hs', hempty⟩
    refine ⟨?_, hs, hs'⟩
    rw [SameTokens, Search.text, Search.text]
    by_cases h : s = []
    · rw [if_pos h, if_pos (hempty.mp h)]
    · rw [if_neg h, if_neg (mt hempty.mpr h), Template.lex_text _ hs, Template.lex_text _ hs',
        Template.shape_tokens]

end Searches

end SqlLexer

end SwaptoshiService
